import Wcn.Lib.Postcard
import Wcn.Cluster.Follow
import Wcn.Cluster.Settings

/-!
# Wcn.Cluster.OnChainSettings

Settings in the bytes that the contract stores for them.

* `ExtraV0`, `ExtraV1` — the two schemas. The second is a list of entries, one for each setting at
  the index of its id. Entries that are not understood are skipped.
* `Settings.get` — a setting by its id; `get_fromExtraV1` — what the second schema makes of it, in
  terms of its own entry only.
* `settings_survive` — writing and reading settings, and reading entries of whatever origin.
* `applyEvent_settingsUpdated` — what views make of settings that a client gave to the contract.
-/

namespace Wcn
namespace Cluster

open Lib

/-! ## Single settings -/

namespace Duration

def asMillis (duration : Duration) : Nat := duration / 10 ^ 6

end Duration

/-- `u32::try_from(n).unwrap_or(u32::MAX)`. -/
def saturatingU32 (n : Nat) : Nat := if n < 2 ^ 32 then n else 2 ^ 32 - 1

inductive SettingId where
  | eventPropagationLatency
  | clockSkew
  | migrationConcurrency
  | migrationTxBandwidth
  | migrationRxBandwidth
deriving DecidableEq

inductive Setting where
  | eventPropagationLatency (latency : Duration)
  | clockSkew (skew : Duration)
  | migrationConcurrency (concurrency : UInt16)
  | migrationTxBandwidth (bandwidth : UInt32)
  | migrationRxBandwidth (bandwidth : UInt32)
deriving DecidableEq

namespace SettingId

def toNat : SettingId → Nat
  | eventPropagationLatency => 0
  | clockSkew => 1
  | migrationConcurrency => 2
  | migrationTxBandwidth => 3
  | migrationRxBandwidth => 4

/-- An index beyond `u8` is no id either. -/
def fromIdx : Nat → Option SettingId
  | 0 => some eventPropagationLatency
  | 1 => some clockSkew
  | 2 => some migrationConcurrency
  | 3 => some migrationTxBandwidth
  | 4 => some migrationRxBandwidth
  | _ => none

theorem fromIdx_eq_some {idx : Nat} {id : SettingId} : fromIdx idx = some id ↔ idx = id.toNat := by
  constructor
  · intro h
    unfold fromIdx at h
    split at h <;> cases h <;> rfl
  · rintro rfl
    cases id <;> rfl

end SettingId

namespace Setting

def discriminant : Setting → SettingId
  | eventPropagationLatency _ => .eventPropagationLatency
  | clockSkew _ => .clockSkew
  | migrationConcurrency _ => .migrationConcurrency
  | migrationTxBandwidth _ => .migrationTxBandwidth
  | migrationRxBandwidth _ => .migrationRxBandwidth

def encodeDuration (value : Duration) : Bytes := toBe 4 (saturatingU32 value.asMillis)

def encode : Setting → Bytes
  | eventPropagationLatency latency => encodeDuration latency
  | clockSkew skew => encodeDuration skew
  | migrationConcurrency concurrency => toBe 2 concurrency.toNat
  | migrationTxBandwidth bandwidth => toBe 4 bandwidth.toNat
  | migrationRxBandwidth bandwidth => toBe 4 bandwidth.toNat

/-- `value.try_into().ok()?` as an array of `w` bytes, and the number in it. -/
def decodeBe (w : Nat) (value : Bytes) : Option Nat :=
  if value.length = w then some (ofBe value) else none

def decodeDuration (value : Bytes) : Option Duration := (decodeBe 4 value).map .fromMillis

def decodeU16 (value : Bytes) : Option UInt16 := (decodeBe 2 value).map .ofNat

def decodeU32 (value : Bytes) : Option UInt32 := (decodeBe 4 value).map .ofNat

def decode (id : SettingId) (value : Bytes) : Option Setting :=
  match id with
  | .eventPropagationLatency => (decodeDuration value).map eventPropagationLatency
  | .clockSkew => (decodeDuration value).map clockSkew
  | .migrationConcurrency => (decodeU16 value).map migrationConcurrency
  | .migrationTxBandwidth => (decodeU32 value).map migrationTxBandwidth
  | .migrationRxBandwidth => (decodeU32 value).map migrationRxBandwidth

end Setting

/-! ## Schemas -/

structure ExtraV0 where
  eventPropagationLatencyMs : Nat
  clockSkewMs : Nat

structure ExtraV1 where
  encoded : List Bytes

namespace Settings

def extra (self : Settings) : List Setting :=
  [.eventPropagationLatency self.eventPropagationLatency, .clockSkew self.clockSkew,
    .migrationConcurrency self.migrationConcurrency,
    .migrationTxBandwidth self.migrationTxBandwidth,
    .migrationRxBandwidth self.migrationRxBandwidth]

def applyExtraSetting (self : Settings) : Setting → Settings
  | .eventPropagationLatency setting => { self with eventPropagationLatency := setting }
  | .clockSkew setting => { self with clockSkew := setting }
  | .migrationConcurrency setting => { self with migrationConcurrency := setting }
  | .migrationTxBandwidth setting => { self with migrationTxBandwidth := setting }
  | .migrationRxBandwidth setting => { self with migrationRxBandwidth := setting }

/-- The number of bytes for the operators' data is overwritten by `tryFromSc`. -/
def fromExtraV0 (extra : ExtraV0) : Settings :=
  { default with
    maxNodeOperatorDataBytes := 0
    eventPropagationLatency := .fromMillis extra.eventPropagationLatencyMs
    clockSkew := .fromMillis extra.clockSkewMs }

def intoExtraV1 (self : Settings) : ExtraV1 :=
  let highestIdx := ((self.extra.map (·.discriminant.toNat)).max?).getD 0
  ⟨self.extra.foldl (fun encoded setting => encoded.set setting.discriminant.toNat setting.encode)
    (List.replicate (highestIdx + 1) [])⟩

/-- One turn of the loop over the entries. -/
def applyEntry (self : Settings) (entry : Bytes × Nat) : Settings :=
  match SettingId.fromIdx entry.2 with
  | none => self
  | some id =>
    match Setting.decode id entry.1 with
    | none => self
    | some setting => self.applyExtraSetting setting

def fromExtraV1 (extra : ExtraV1) : Settings := extra.encoded.zipIdx.foldl applyEntry default

end Settings

/-! ## The bytes of the contract -/

/-- With the debug text of the error. -/
def codecError : Postcard.Error → SettingsError
  | .deserializeUnexpectedEnd => .codec "DeserializeUnexpectedEnd"
  | .deserializeBadVarint => .codec "DeserializeBadVarint"

namespace ExtraV0

def fromBytes (bytes : Bytes) : Except Postcard.Error ExtraV0 := do
  let (eventPropagationLatencyMs, rest) ← Postcard.takeU32 bytes
  let (clockSkewMs, _) ← Postcard.takeU32 rest
  .ok ⟨eventPropagationLatencyMs, clockSkewMs⟩

end ExtraV0

namespace ExtraV1

def fromBytes (bytes : Bytes) : Except Postcard.Error ExtraV1 :=
  (Postcard.fromFrames bytes).map ExtraV1.mk

def toBytes (extra : ExtraV1) : Bytes := Postcard.frames extra.encoded

end ExtraV1

namespace Settings

/-- The buffer has the size of what is written to it, so writing does not fail. -/
def intoSc (self : Settings) : SmartContract.Settings where
  maxNodeOperatorDataBytes := self.maxNodeOperatorDataBytes.toNat
  extra := 1 :: self.intoExtraV1.toBytes

def tryFromSc (settings : SmartContract.Settings) : Except SettingsError Settings :=
  match settings.extra with
  | [] => .error .emptyBuffer
  | schemaVersion :: bytes => do
    let decoded ← match schemaVersion.toNat with
      | 0 => ((ExtraV0.fromBytes bytes).map fromExtraV0).mapError codecError
      | 1 => ((ExtraV1.fromBytes bytes).map fromExtraV1).mapError codecError
      | version => .error (.unknownSchemaVersion version)
    .ok { decoded with maxNodeOperatorDataBytes := .ofNat settings.maxNodeOperatorDataBytes }

end Settings

/-! ## Reading entries -/

namespace SettingId

/-- How many bytes the entry of a setting has. -/
def width : SettingId → Nat
  | migrationConcurrency => 2
  | _ => 4

/-- The setting that a number stands for. -/
def setting (id : SettingId) (n : Nat) : Setting :=
  match id with
  | eventPropagationLatency => .eventPropagationLatency (.fromMillis n)
  | clockSkew => .clockSkew (.fromMillis n)
  | migrationConcurrency => .migrationConcurrency (.ofNat n)
  | migrationTxBandwidth => .migrationTxBandwidth (.ofNat n)
  | migrationRxBandwidth => .migrationRxBandwidth (.ofNat n)

end SettingId

theorem Setting.decode_eq (id : SettingId) (value : Bytes) :
    Setting.decode id value =
      if value.length = id.width then some (id.setting (ofBe value)) else none := by
  have hdecode : decode id value = (decodeBe id.width value).map id.setting := by
    cases id <;> exact Option.map_map _ _ _
  rw [hdecode, decodeBe]
  split_ifs <;> rfl

theorem Setting.discriminant_setting (id : SettingId) (n : Nat) :
    (id.setting n).discriminant = id := by
  cases id <;> rfl

theorem Setting.discriminant_decode {id : SettingId} {value : Bytes} {setting : Setting}
    (h : Setting.decode id value = some setting) : setting.discriminant = id := by
  rw [decode_eq] at h
  split_ifs at h
  cases h
  exact discriminant_setting id _

namespace Settings

/-- The setting with an id. -/
def get (self : Settings) : SettingId → Setting
  | .eventPropagationLatency => .eventPropagationLatency self.eventPropagationLatency
  | .clockSkew => .clockSkew self.clockSkew
  | .migrationConcurrency => .migrationConcurrency self.migrationConcurrency
  | .migrationTxBandwidth => .migrationTxBandwidth self.migrationTxBandwidth
  | .migrationRxBandwidth => .migrationRxBandwidth self.migrationRxBandwidth

variable {self other : Settings} {id : SettingId}

/-- Settings are the same if all of them are. -/
theorem eq_of_get (hmax : self.maxNodeOperatorDataBytes = other.maxNodeOperatorDataBytes)
    (h : ∀ id, self.get id = other.get id) : self = other := by
  obtain ⟨max, latency, skew, concurrency, tx, rx⟩ := self
  obtain ⟨max', latency', skew', concurrency', tx', rx'⟩ := other
  cases hmax
  cases h .eventPropagationLatency
  cases h .clockSkew
  cases h .migrationConcurrency
  cases h .migrationTxBandwidth
  cases h .migrationRxBandwidth
  rfl

/-- The limit of the operators' data is not one of them. -/
theorem get_withMax (self : Settings) (max : UInt16) (id : SettingId) :
    ({ self with maxNodeOperatorDataBytes := max } : Settings).get id = self.get id := by
  cases id <;> rfl

theorem get_applyExtraSetting (self : Settings) (setting : Setting) (id : SettingId) :
    (self.applyExtraSetting setting).get id =
      if setting.discriminant = id then setting else self.get id := by
  cases setting <;> cases id <;> rfl

/-- An entry changes the setting at its index, if it can be decoded. -/
theorem get_applyEntry (self : Settings) (value : Bytes) (idx : Nat) (id : SettingId) :
    (self.applyEntry (value, idx)).get id =
      if idx = id.toNat then (Setting.decode id value).getD (self.get id) else self.get id := by
  unfold applyEntry
  dsimp only
  by_cases hidx : idx = id.toNat
  · rw [if_pos hidx, SettingId.fromIdx_eq_some.mpr hidx]
    dsimp only
    cases hdecode : Setting.decode id value with
    | none => rfl
    | some setting =>
      dsimp only
      rw [get_applyExtraSetting, if_pos (Setting.discriminant_decode hdecode), Option.getD_some]
  · rw [if_neg hidx]
    cases hid : SettingId.fromIdx idx with
    | none => rfl
    | some id' =>
      dsimp only
      cases hdecode : Setting.decode id' value with
      | none => rfl
      | some setting =>
        dsimp only
        rw [get_applyExtraSetting, if_neg]
        rintro rfl
        rw [Setting.discriminant_decode hdecode] at hidx
        exact hidx (SettingId.fromIdx_eq_some.mp hid)

/-- The loop, from index `start` on: of all entries, only the one at the index of the setting
counts. -/
theorem get_foldl_applyEntry (encoded : List Bytes) (start : Nat) (self : Settings)
    (id : SettingId) :
    ((encoded.zipIdx start).foldl applyEntry self).get id =
      if start ≤ id.toNat then
        ((encoded[id.toNat - start]?).bind (Setting.decode id)).getD (self.get id)
      else self.get id := by
  induction encoded generalizing start self with
  | nil => simp
  | cons value encoded ih =>
    rw [List.zipIdx_cons, List.foldl_cons, ih, get_applyEntry]
    rcases Nat.lt_trichotomy start id.toNat with hlt | heq | hgt
    · have hsub : id.toNat - start = id.toNat - (start + 1) + 1 := by omega
      rw [if_pos (Nat.succ_le_of_lt hlt), if_pos (Nat.le_of_lt hlt), if_neg (Nat.ne_of_lt hlt),
        hsub, List.getElem?_cons_succ]
    · rw [if_neg (by omega), if_pos heq, if_pos (Nat.le_of_eq heq), heq, Nat.sub_self,
        List.getElem?_cons_zero, Option.bind_some]
    · rw [if_neg (by omega), if_neg (by omega), if_neg (by omega)]

theorem get_fromExtraV1 (encoded : List Bytes) (id : SettingId) :
    (fromExtraV1 ⟨encoded⟩).get id =
      ((encoded[id.toNat]?).bind (Setting.decode id)).getD (default.get id) := by
  rw [fromExtraV1, get_foldl_applyEntry, if_pos (Nat.zero_le _), Nat.sub_zero]

/-! ## Writing settings -/

/-- What is left of a duration. -/
def onChain (duration : Duration) : Duration := .fromMillis (min duration.asMillis (2 ^ 32 - 1))

/-- What is left of the settings. -/
def truncated (self : Settings) : Settings :=
  { self with
    eventPropagationLatency := onChain self.eventPropagationLatency
    clockSkew := onChain self.clockSkew }

theorem encoded_intoExtraV1 (self : Settings) :
    self.intoExtraV1.encoded = [(self.get .eventPropagationLatency).encode,
      (self.get .clockSkew).encode, (self.get .migrationConcurrency).encode,
      (self.get .migrationTxBandwidth).encode, (self.get .migrationRxBandwidth).encode] := rfl

theorem getElem?_encoded (self : Settings) (id : SettingId) :
    self.intoExtraV1.encoded[id.toNat]? = some (self.get id).encode := by
  cases id <;> rfl

theorem length_encode (self : Settings) (id : SettingId) :
    (self.get id).encode.length = id.width := by
  cases id <;> exact length_toBe _ _

theorem saturatingU32_eq (n : Nat) : saturatingU32 n = min n (2 ^ 32 - 1) := by
  unfold saturatingU32
  split_ifs <;> omega

theorem ofBe_encodeDuration (duration : Duration) :
    ofBe (Setting.encodeDuration duration) = min duration.asMillis (2 ^ 32 - 1) := by
  rw [Setting.encodeDuration, ofBe_toBe, saturatingU32_eq, Nat.mod_eq_of_lt (by omega)]

theorem ofBe_toBe_u16 (n : UInt16) : UInt16.ofNat (ofBe (toBe 2 n.toNat)) = n := by
  have hlt : n.toNat < 256 ^ 2 := n.toNat_lt
  rw [ofBe_toBe, Nat.mod_eq_of_lt hlt, UInt16.ofNat_toNat]

theorem ofBe_toBe_u32 (n : UInt32) : UInt32.ofNat (ofBe (toBe 4 n.toNat)) = n := by
  have hlt : n.toNat < 256 ^ 4 := n.toNat_lt
  rw [ofBe_toBe, Nat.mod_eq_of_lt hlt, UInt32.ofNat_toNat]

/-- Reading an entry back. -/
theorem decode_encode (self : Settings) (id : SettingId) :
    Setting.decode id (self.get id).encode = some (self.truncated.get id) := by
  rw [Setting.decode_eq, if_pos (length_encode self id), Option.some.injEq]
  cases id with
  | eventPropagationLatency =>
    exact congrArg (Setting.eventPropagationLatency ∘ Duration.fromMillis) (ofBe_encodeDuration _)
  | clockSkew => exact congrArg (Setting.clockSkew ∘ Duration.fromMillis) (ofBe_encodeDuration _)
  | migrationConcurrency => exact congrArg Setting.migrationConcurrency (ofBe_toBe_u16 _)
  | migrationTxBandwidth => exact congrArg Setting.migrationTxBandwidth (ofBe_toBe_u32 _)
  | migrationRxBandwidth => exact congrArg Setting.migrationRxBandwidth (ofBe_toBe_u32 _)

theorem fromExtraV1_intoExtraV1 (self : Settings) :
    { fromExtraV1 self.intoExtraV1 with
      maxNodeOperatorDataBytes := self.maxNodeOperatorDataBytes } = self.truncated := by
  refine eq_of_get rfl fun id => ?_
  rw [get_withMax, get_fromExtraV1, getElem?_encoded, Option.bind_some, decode_encode,
    Option.getD_some]

/-- Entries in the second schema are read as they were written. -/
theorem tryFromSc_frames {encoded : List Bytes} (hlength : encoded.length < 2 ^ 64)
    (hentries : ∀ value ∈ encoded, value.length < 2 ^ 64) (max : Nat) :
    tryFromSc ⟨max, 1 :: Postcard.frames encoded⟩ =
      .ok { fromExtraV1 ⟨encoded⟩ with maxNodeOperatorDataBytes := .ofNat max } := by
  have hread : ExtraV1.fromBytes (Postcard.frames encoded) = .ok ⟨encoded⟩ := by
    rw [ExtraV1.fromBytes, Postcard.fromFrames_frames hlength hentries]
    rfl
  have hversion : ∀ bytes, tryFromSc ⟨max, 1 :: bytes⟩ =
      (((ExtraV1.fromBytes bytes).map fromExtraV1).mapError codecError >>= fun decoded =>
        .ok { decoded with maxNodeOperatorDataBytes := .ofNat max }) := fun _ => rfl
  rw [hversion, hread]
  rfl

theorem length_intoExtraV1 (self : Settings) :
    self.intoExtraV1.encoded.length < 2 ^ 64 ∧
      ∀ value ∈ self.intoExtraV1.encoded, value.length < 2 ^ 64 := by
  rw [encoded_intoExtraV1]
  refine ⟨show 5 < 2 ^ 64 by decide, ?_⟩
  have hwidth : ∀ id, (self.get id).encode.length < 2 ^ 64 := by
    intro id
    rw [length_encode]
    cases id <;> decide
  simp only [List.forall_mem_cons, hwidth, true_and]
  exact fun value h => absurd h List.not_mem_nil

theorem tryFromSc_intoSc (self : Settings) :
    tryFromSc self.intoSc = .ok self.truncated := by
  obtain ⟨hlength, hentries⟩ := self.length_intoExtraV1
  rw [intoSc, ExtraV1.toBytes, tryFromSc_frames hlength hentries, UInt16.ofNat_toNat,
    fromExtraV1_intoExtraV1]

end Settings

/-- Settings that are written for the contract are read back, with durations in whole milliseconds
up to the largest of 32 bits. Whatever entries there are, reading them succeeds: a setting is the
number in its entry if that has as many bytes as it should, and the default otherwise, no matter
what the other entries are. -/
theorem settings_survive :
    (∀ settings : Settings, Settings.tryFromSc settings.intoSc = .ok { settings with
      eventPropagationLatency :=
        .fromMillis (min settings.eventPropagationLatency.asMillis (2 ^ 32 - 1))
      clockSkew := .fromMillis (min settings.clockSkew.asMillis (2 ^ 32 - 1)) }) ∧
    ∀ encoded : List Bytes, encoded.length < 2 ^ 64 → (∀ value ∈ encoded, value.length < 2 ^ 64) →
      ∀ max, ∃ settings : Settings,
        Settings.tryFromSc ⟨max, 1 :: Postcard.frames encoded⟩ = .ok settings ∧
        settings.maxNodeOperatorDataBytes = .ofNat max ∧
        ∀ id : SettingId, settings.get id =
          ((encoded[id.toNat]?.filter fun value => value.length = id.width).map fun value =>
            id.setting (ofBe value)).getD (Settings.default.get id) := by
  constructor
  · intro settings
    exact settings.tryFromSc_intoSc
  · intro encoded hlength hentries max
    refine ⟨_, Settings.tryFromSc_frames hlength hentries max, rfl, fun id => ?_⟩
    have hdecode : (encoded[id.toNat]?).bind (Setting.decode id) =
        (encoded[id.toNat]?.filter fun value => value.length = id.width).map fun value =>
          id.setting (ofBe value) := by
      cases encoded[id.toNat]? with
      | none => rfl
      | some value =>
        rw [Option.bind_some, Setting.decode_eq, Option.filter_some]
        by_cases hwidth : value.length = id.width
        · simp [hwidth]
        · simp [hwidth]
    rw [Settings.get_withMax, Settings.get_fromExtraV1, hdecode]

/-- An entry without bytes, one that is too short and one too many. -/
theorem settings_survive_malformed : ∃ settings : Settings,
    Settings.tryFromSc ⟨100, 1 :: Postcard.frames
      [[0, 0, 16, 0], [], [1], [0, 0, 0, 1], [0, 0, 0, 2], [9, 9]]⟩ = .ok settings ∧
    settings.get .eventPropagationLatency = .eventPropagationLatency (.fromMillis 4096) ∧
    settings.get .clockSkew = .clockSkew (.fromMillis 500) ∧
    settings.get .migrationConcurrency = .migrationConcurrency 10 ∧
    settings.get .migrationTxBandwidth = .migrationTxBandwidth 1 ∧
    settings.get .migrationRxBandwidth = .migrationRxBandwidth 2 := by
  obtain ⟨settings, hread, -, hget⟩ := settings_survive.2
    [[0, 0, 16, 0], [], [1], [0, 0, 0, 1], [0, 0, 0, 2], [9, 9]] (by decide) (by decide) 100
  refine ⟨settings, hread, ?_, ?_, ?_, ?_, ?_⟩
  · exact (hget .eventPropagationLatency).trans (by decide)
  · exact (hget .clockSkew).trans (by decide)
  · exact (hget .migrationConcurrency).trans (by decide)
  · exact (hget .migrationTxBandwidth).trans (by decide)
  · exact (hget .migrationRxBandwidth).trans (by decide)

/-! ## Settings of views -/

/-- The contract's struct also has the least number of operators. -/
def SmartContract.Settings.intoContract (settings : SmartContract.Settings) :
    Contract.Settings where
  maxOperatorDataBytes := settings.maxNodeOperatorDataBytes
  minOperators := minOperators
  extra := settings.extra

section Views

variable {D : Type} {cfg : Config Settings D} {s s' : Contract.State} {view : View Settings D}

/-- A client that updates the settings stays within what views can follow. -/
theorem allows_updateSettings (hcodec : cfg.settings = Settings.tryFromSc) (settings : Settings) :
    (followPolicy cfg).Allows (.updateSettings settings.intoSc.intoContract) := by
  refine ⟨rfl, settings.truncated, ?_⟩
  rw [hcodec]
  exact settings.tryFromSc_intoSc

/-- Once the contract has taken over the settings of a client, all views in sync with it can follow,
and show what is left of these settings. -/
theorem applyEvent_settingsUpdated (hcodec : cfg.settings = Settings.tryFromSc)
    (hs : Contract.Registry s) (hv : Tracks cfg s view) {env : Contract.Env} {settings : Settings}
    {event : Contract.Event}
    (hexec : Contract.exec env (.updateSettings settings.intoSc.intoContract) s = .ok (s', event)) :
    ∃ e view', SmartContract.Event.tryFrom env.timestamp event = some e ∧
      view.applyEvent cfg e = .ok view' ∧ Tracks cfg s' view' ∧
      view'.settings = settings.truncated := by
  have h := Contract.exec_iff.mp hexec
  have htransition := h
  cases h with
  | updateSettings _ _ _ =>
    have hchange : view.change cfg (.settingsUpdated settings.intoSc (s.version + 1)) =
        .ok { view with settings := settings.truncated } := by
      change ((cfg.settings settings.intoSc).mapError _ >>= _) = _
      rw [hcodec, settings.tryFromSc_intoSc]
      rfl
    have hversion : s.version + 1 = view.clusterVersion + 1 := by rw [hv.clusterVersion]
    have happly : view.applyEvent cfg (.settingsUpdated settings.intoSc (s.version + 1)) = _ :=
      View.applyEvent_eq_ok.mpr ⟨hversion, _, hchange, rfl⟩
    exact ⟨_, _, rfl, happly, tracks_applyEvent hs hv htransition rfl happly, rfl⟩

end Views

end Cluster
end Wcn
