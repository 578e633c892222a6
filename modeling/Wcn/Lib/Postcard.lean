import Wcn.Lib.ByteStrings

/-!
# Wcn.Lib.Postcard

The postcard format of numbers, byte strings and lists of byte strings.

* `takeVarint`, `takeFrame`, `takeFrames` — reading from the front of the input, with what is wrong
  with it otherwise.
* `fromFrames_frames` — a list of byte strings can be read back.
-/

namespace Wcn
namespace Lib
namespace Postcard

inductive Error where
  | deserializeUnexpectedEnd
  | deserializeBadVarint
deriving DecidableEq

/-- A number that is still not over after `limit` bytes, or too large, is a bad one. -/
def takeVarint (top limit : Nat) (bytes : Bytes) : Except Error (Nat × Bytes) :=
  match readVarint top limit bytes with
  | some result => .ok result
  | none =>
    if bytes.length < limit ∧ ∀ byte ∈ bytes, 128 ≤ byte.toNat then
      .error .deserializeUnexpectedEnd
    else
      .error .deserializeBadVarint

/-- A number of 32 bits takes five bytes at most, the last of them for four bits. -/
def takeU32 (bytes : Bytes) : Except Error (Nat × Bytes) := takeVarint 15 5 bytes

def takeUsize (bytes : Bytes) : Except Error (Nat × Bytes) := takeVarint 1 10 bytes

def takeFrame (bytes : Bytes) : Except Error (Bytes × Bytes) := do
  let (len, rest) ← takeUsize bytes
  if len ≤ rest.length then .ok (rest.take len, rest.drop len) else .error .deserializeUnexpectedEnd

def takeFrames : Nat → Bytes → Except Error (List Bytes × Bytes)
  | 0, bytes => .ok ([], bytes)
  | count + 1, bytes => do
    let (frame, rest) ← takeFrame bytes
    let (frames, rest) ← takeFrames count rest
    .ok (frame :: frames, rest)

/-- A list of byte strings behind its length. -/
def frames (list : List Bytes) : Bytes := toVarint 10 list.length ++ list.flatMap frameBytes

def fromFrames (bytes : Bytes) : Except Error (List Bytes) := do
  let (count, rest) ← takeUsize bytes
  let (list, _) ← takeFrames count rest
  .ok list

theorem takeUsize_toVarint {n : Nat} (h : n < 2 ^ 64) (rest : Bytes) :
    takeUsize (toVarint 10 n ++ rest) = .ok (n, rest) := by
  have hlimit : n < (1 + 1) * 128 ^ 9 := h.trans_eq (by decide)
  rw [takeUsize, takeVarint, readVarint_toVarint (by decide) hlimit]

theorem takeFrame_frameBytes {bytes : Bytes} (h : bytes.length < 2 ^ 64) (rest : Bytes) :
    takeFrame (frameBytes bytes ++ rest) = .ok (bytes, rest) := by
  have hlen : bytes.length ≤ (bytes ++ rest).length := by
    rw [List.length_append]
    exact Nat.le_add_right _ _
  rw [takeFrame, frameBytes, List.append_assoc, takeUsize_toVarint h]
  simp only [bind, Except.bind, if_pos hlen, List.take_left' rfl, List.drop_left' rfl]

theorem takeFrames_flatMap {list : List Bytes} (h : ∀ bytes ∈ list, bytes.length < 2 ^ 64)
    (rest : Bytes) : takeFrames list.length (list.flatMap frameBytes ++ rest) = .ok (list, rest) := by
  induction list with
  | nil => rfl
  | cons bytes list ih =>
    obtain ⟨hbytes, hlist⟩ := List.forall_mem_cons.mp h
    rw [List.length_cons, takeFrames, List.flatMap_cons, List.append_assoc,
      takeFrame_frameBytes hbytes]
    simp only [bind, Except.bind, ih hlist]

theorem fromFrames_frames {list : List Bytes} (hlength : list.length < 2 ^ 64)
    (h : ∀ bytes ∈ list, bytes.length < 2 ^ 64) : fromFrames (frames list) = .ok list := by
  have hread := takeFrames_flatMap h []
  rw [List.append_nil] at hread
  rw [fromFrames, frames, takeUsize_toVarint hlength]
  simp only [bind, Except.bind, hread]

end Postcard
end Lib
end Wcn
