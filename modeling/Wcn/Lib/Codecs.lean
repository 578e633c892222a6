import Wcn.Lib.Postcard

/-!
# Wcn.Lib.Codecs

The postcard format of typed values: each type has a `Codec`, which reads from the front of the input
what it has written there, whatever follows.

* `Codec.unit`, `byte`, `bool`, `array`, `u16`, `u32`, `u64`, `bytes`, `string` — the basic types.
* `Codec.list`, `option`, `pair`, `sum`, `iso`, `checked` — lists, optional values, records, choices, and
  types with a conversion of their own.
* A list or a string is only written correctly if its length is a number of 64 bits (`Fits`), and so are
  numbers that are too large.
-/

namespace Wcn
namespace Lib
namespace Postcard

inductive DecodeError where
  /-- Of a number or a length. -/
  | number (e : Error)
  | deserializeBadOption
  | deserializeBadUtf8
  | serdeDeCustom
deriving DecidableEq

structure Codec (α : Type) where
  encode : α → Bytes
  decode : Bytes → Except DecodeError (α × Bytes)
  Fits : α → Prop
  decode_encode : ∀ a rest, Fits a → decode (encode a ++ rest) = .ok (a, rest)

namespace Codec

variable {α β : Type}

/-- `postcard::from_bytes`: what follows the value is ignored. -/
def fromBytes (codec : Codec α) (bytes : Bytes) : Except DecodeError α :=
  (codec.decode bytes).map Prod.fst

theorem fromBytes_encode (codec : Codec α) {a : α} (h : codec.Fits a) :
    codec.fromBytes (codec.encode a) = .ok a := by
  have hread := codec.decode_encode a [] h
  rw [List.append_nil] at hread
  rw [fromBytes, hread]
  rfl

/-! ## Basic types -/

def byte : Codec UInt8 where
  encode a := [a]
  decode
    | [] => .error (.number .deserializeUnexpectedEnd)
    | a :: rest => .ok (a, rest)
  Fits _ := True
  decode_encode _ _ _ := rfl

/-- Bytes of a known number. -/
def array (n : Nat) : Codec (Vector UInt8 n) where
  encode a := a.toList
  decode bytes :=
    if h : n ≤ bytes.length then
      .ok (⟨(bytes.take n).toArray, by simp [h]⟩, bytes.drop n)
    else
      .error (.number .deserializeUnexpectedEnd)
  Fits _ := True
  decode_encode a rest _ := by
    have hlen : n ≤ (a.toList ++ rest).length := by
      rw [List.length_append, a.length_toList]
      exact Nat.le_add_right _ _
    rw [dif_pos hlen]
    refine congrArg Except.ok (Prod.ext (Vector.toList_inj.mp ?_) (List.drop_left' a.length_toList))
    exact List.take_left' a.length_toList

/-- A number of 16 bits takes three bytes at most, the last of them for two bits. -/
def u16 : Codec UInt16 where
  encode a := toVarint 3 a.toNat
  decode bytes := ((takeVarint 3 3 bytes).mapError .number).map fun (n, rest) => (.ofNat n, rest)
  Fits _ := True
  decode_encode a rest _ := by
    have hlt : a.toNat < (3 + 1) * 128 ^ 2 := a.toNat_lt
    rw [takeVarint, readVarint_toVarint (by decide) hlt]
    simp [Except.mapError, Except.map]

def u32 : Codec Nat where
  encode := toVarint 5
  decode input := (takeU32 input).mapError .number
  Fits n := n < 2 ^ 32
  decode_encode n rest h := by
    have hlimit : n < (15 + 1) * 128 ^ 4 := h.trans_eq (by decide)
    rw [takeU32, takeVarint, readVarint_toVarint (by decide) hlimit]
    rfl

def u64 : Codec Nat where
  encode := toVarint 10
  decode input := (takeUsize input).mapError .number
  Fits n := n < 2 ^ 64
  decode_encode n rest h := by
    rw [takeUsize_toVarint h]
    rfl

def unit : Codec Unit where
  encode _ := []
  decode input := .ok ((), input)
  Fits _ := True
  decode_encode _ _ _ := rfl

def bytes : Codec Bytes where
  encode := frameBytes
  decode input := (takeFrame input).mapError .number
  Fits a := a.length < 2 ^ 64
  decode_encode a rest h := by
    rw [takeFrame_frameBytes h]
    rfl

/-! ## Composed types -/

/-- A type with a conversion from and to another one, where the former can fail. -/
def checked (codec : Codec α) (toValue : α → Option β) (fromValue : β → α) (error : DecodeError)
    (hinverse : ∀ b, toValue (fromValue b) = some b) : Codec β where
  encode b := codec.encode (fromValue b)
  decode input := do
    let (a, rest) ← codec.decode input
    match toValue a with
    | some b => .ok (b, rest)
    | none => .error error
  Fits b := codec.Fits (fromValue b)
  decode_encode b rest h := by
    rw [codec.decode_encode _ _ h]
    simp only [bind, Except.bind, hinverse]

def iso (codec : Codec α) (toValue : α → β) (fromValue : β → α)
    (hinverse : ∀ b, toValue (fromValue b) = b) : Codec β where
  encode b := codec.encode (fromValue b)
  decode input := (codec.decode input).map fun (a, rest) => (toValue a, rest)
  Fits b := codec.Fits (fromValue b)
  decode_encode b rest h := by
    rw [codec.decode_encode _ _ h]
    simp only [Except.map, hinverse]

def pair (first : Codec α) (second : Codec β) : Codec (α × β) where
  encode p := first.encode p.1 ++ second.encode p.2
  decode input := do
    let (a, rest) ← first.decode input
    let (b, rest) ← second.decode rest
    .ok ((a, b), rest)
  Fits p := first.Fits p.1 ∧ second.Fits p.2
  decode_encode p rest h := by
    rw [List.append_assoc, first.decode_encode _ _ h.1]
    simp only [bind, Except.bind, second.decode_encode _ _ h.2]

/-- One byte, which must be zero or one. -/
def bool : Codec Bool :=
  byte.checked (fun b => if b = 0 then some false else if b = 1 then some true else none)
    (fun b => if b then 1 else 0) .serdeDeCustom (by decide)

/-- The number of the case, then the value. -/
def sum (first : Codec α) (second : Codec β) : Codec (α ⊕ β) where
  encode
    | .inl a => u32.encode 0 ++ first.encode a
    | .inr b => u32.encode 1 ++ second.encode b
  decode input := do
    let (tag, rest) ← u32.decode input
    if tag = 0 then (first.decode rest).map fun (a, rest) => (.inl a, rest)
    else if tag = 1 then (second.decode rest).map fun (b, rest) => (.inr b, rest)
    else .error .serdeDeCustom
  Fits := Sum.elim first.Fits second.Fits
  decode_encode value rest h := by
    cases value with
    | inl a =>
      dsimp only
      rw [List.append_assoc, u32.decode_encode 0 _ (show 0 < 2 ^ 32 by decide)]
      simp only [bind, Except.bind, if_pos, first.decode_encode a rest h, Except.map]
    | inr b =>
      dsimp only
      rw [List.append_assoc, u32.decode_encode 1 _ (show 1 < 2 ^ 32 by decide)]
      simp only [bind, Except.bind, Nat.one_ne_zero, if_neg, if_pos, second.decode_encode b rest h,
        Except.map, not_false_eq_true]

def option (codec : Codec α) : Codec (Option α) where
  encode
    | none => [0]
    | some a => 1 :: codec.encode a
  decode
    | [] => .error (.number .deserializeUnexpectedEnd)
    | tag :: rest =>
      if tag = 0 then .ok (none, rest)
      else if tag = 1 then (codec.decode rest).map fun (a, rest) => (some a, rest)
      else .error .deserializeBadOption
  Fits a := ∀ b ∈ a, codec.Fits b
  decode_encode a rest h := by
    cases a with
    | none => rfl
    | some a =>
      simp only [List.cons_append, codec.decode_encode a rest (h a rfl), Except.map]
      rfl

def takeList (codec : Codec α) : Nat → Bytes → Except DecodeError (List α × Bytes)
  | 0, input => .ok ([], input)
  | count + 1, input => do
    let (a, rest) ← codec.decode input
    let (as, rest) ← takeList codec count rest
    .ok (a :: as, rest)

theorem takeList_flatMap (codec : Codec α) {as : List α} (h : ∀ a ∈ as, codec.Fits a) (rest : Bytes) :
    codec.takeList as.length (as.flatMap codec.encode ++ rest) = .ok (as, rest) := by
  induction as with
  | nil => rfl
  | cons a as ih =>
    obtain ⟨ha, has⟩ := List.forall_mem_cons.mp h
    rw [List.length_cons, takeList, List.flatMap_cons, List.append_assoc, codec.decode_encode _ _ ha]
    simp only [bind, Except.bind, ih has]

/-- The values behind their number. -/
def list (codec : Codec α) : Codec (List α) where
  encode as := toVarint 10 as.length ++ as.flatMap codec.encode
  decode input := do
    let (count, rest) ← (takeUsize input).mapError .number
    codec.takeList count rest
  Fits as := as.length < 2 ^ 64 ∧ ∀ a ∈ as, codec.Fits a
  decode_encode as rest h := by
    rw [List.append_assoc, takeUsize_toVarint h.1]
    simp only [bind, Except.bind, Except.mapError, takeList_flatMap codec h.2]

def utf8 (s : String) : Bytes := s.toByteArray.data.toList

def fromUtf8 (bytes : Bytes) : Option String := String.fromUTF8? ⟨bytes.toArray⟩

theorem fromUtf8_utf8 (s : String) : fromUtf8 (utf8 s) = some s := by
  have hbytes : (⟨(utf8 s).toArray⟩ : ByteArray) = s.toByteArray := by
    rw [utf8, Array.toArray_toList]
  rw [fromUtf8, hbytes, String.fromUTF8?, dif_pos s.isValidUTF8]
  rfl

def string : Codec String := bytes.checked fromUtf8 utf8 .deserializeBadUtf8 fromUtf8_utf8

end Codec
end Postcard
end Lib
end Wcn
