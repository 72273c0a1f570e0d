import EglComet.Protobuf.Runtime
import Mathlib.Algebra.Group.Int.Defs
import Mathlib.Algebra.Group.Nat.Defs
import Mathlib.Tactic.SplitIfs

/-!
A runtime over flat arrays that follows the documented wire format: base-128
varints, tags of field number and wire type, length-delimited strings, and
skipping of unknown fields including groups.
-/
namespace Protobuf.Wire

/-- The unread bytes, and whether the last `ReadTag` met the end of the input cleanly. -/
structure Stream where
  rest : Bytes
  legitimateEnd : Bool
  deriving DecidableEq, Repr

/-- A varint of at most `k` bytes: seven bits a byte, least significant group first. -/
def varint : ℕ → Bytes → Option (ℕ × Bytes)
  | 0, _ => none
  | _ + 1, [] => none
  | k + 1, b :: bs =>
    if b.toNat < 128 then some (b.toNat, bs)
    else (varint k bs).map fun r => (r.1 * 128 + b.toNat % 128, r.2)

theorem varint_shrinks (k : ℕ) (bs : Bytes) : ∀ r ∈ varint k bs, r.2.length < bs.length := by
  induction k generalizing bs with
  | zero => simp [varint]
  | succ k ih =>
    cases bs with
    | nil => simp [varint]
    | cons b bs =>
      intro r hr
      simp only [varint] at hr
      split at hr
      · obtain rfl : (b.toNat, bs) = r := by simpa using hr
        simp
      · obtain ⟨q, hq, rfl⟩ := Option.map_eq_some_iff.mp hr
        have := ih bs q hq
        simp only [List.length_cons]
        omega

theorem varint_suffix (k : ℕ) (bs : Bytes) : ∀ r ∈ varint k bs, r.2 <:+ bs := by
  induction k generalizing bs with
  | zero => simp [varint]
  | succ k ih =>
    cases bs with
    | nil => simp [varint]
    | cons b bs =>
      intro r hr
      simp only [varint] at hr
      split at hr
      · obtain rfl : (b.toNat, bs) = r := by simpa using hr
        exact List.suffix_cons b bs
      · obtain ⟨q, hq, rfl⟩ := Option.map_eq_some_iff.mp hr
        exact (ih bs q hq).trans (List.suffix_cons b bs)

def readTag (s : Stream) : ℕ × Stream :=
  match s.rest with
  | [] => (0, ⟨[], true⟩)
  | bs =>
    match varint 10 bs with
    | some (v, rest) => (v % 2 ^ 32, ⟨rest, false⟩)
    | none => (0, ⟨bs, false⟩)

/-- A varint read as a signed value of the given width; higher bits are discarded. -/
def readSigned (width : ℕ) (s : Stream) : Option (ℤ × Stream) :=
  (varint 10 s.rest).map fun r => ((r.1 : ℤ).bmod (2 ^ width), ⟨r.2, s.legitimateEnd⟩)

/-- A length that does not fit the input leaves the bytes that were there in the string. -/
def readString (old : Bytes) (s : Stream) : Bytes × Option Stream :=
  match varint 10 s.rest with
  | none => (old, none)
  | some (v, rest) =>
    let n := v % 2 ^ 32
    if 2 ^ 31 ≤ n then (old, none)
    else if n ≤ rest.length then (rest.take n, some ⟨rest.drop n, s.legitimateEnd⟩)
    else (rest, none)

mutual

/-- `SkipField`: skip one field of the given tag, with this many levels of groups to spare. -/
def skip : ℕ → ℕ → ℕ → Bytes → Option Bytes
  | 0, _, _, _ => none
  | fuel + 1, depth, tag, bs =>
    match tag % 8 with
    | 0 => (varint 10 bs).map Prod.snd
    | 1 => if 8 ≤ bs.length then some (bs.drop 8) else none
    | 2 =>
      match varint 10 bs with
      | some (v, rest) => if v % 2 ^ 32 ≤ rest.length then some (rest.drop (v % 2 ^ 32)) else none
      | none => none
    | 3 =>
      match depth with
      | 0 => none
      | depth + 1 => skipMessage fuel depth (tag + 1) bs
    | 5 => if 4 ≤ bs.length then some (bs.drop 4) else none
    | _ => none

/-- `SkipMessage` inside a group, which fails unless it stops at the end tag of the group. -/
def skipMessage : ℕ → ℕ → ℕ → Bytes → Option Bytes
  | 0, _, _, _ => none
  | fuel + 1, depth, endTag, bs =>
    match varint 10 bs with
    | none => none
    | some (v, rest) =>
      if v % 2 ^ 32 = endTag then some rest
      else if v % 2 ^ 32 = 0 ∨ v % 8 = 4 then none
      else (skip fuel depth (v % 2 ^ 32) rest).bind (skipMessage fuel depth endTag)

end

theorem skip_suffix (fuel : ℕ) : ∀ depth tag bs, (∀ r ∈ skip fuel depth tag bs, r <:+ bs) ∧
    ∀ r ∈ skipMessage fuel depth tag bs, r <:+ bs := by
  induction fuel with
  | zero => simp [skip, skipMessage]
  | succ fuel ih =>
    intro depth tag bs
    constructor
    · intro r hr
      simp only [skip] at hr
      split at hr
      · obtain ⟨q, hq, rfl⟩ := Option.map_eq_some_iff.mp hr
        exact varint_suffix 10 bs q hq
      · split at hr
        · obtain rfl : bs.drop 8 = r := by simpa using hr
          exact List.drop_suffix 8 bs
        · simp at hr
      · split at hr
        next v rest hv =>
          split at hr
          · obtain rfl : rest.drop (v % 2 ^ 32) = r := by simpa using hr
            exact (List.drop_suffix _ rest).trans (varint_suffix 10 bs _ hv)
          · simp at hr
        next => simp at hr
      · split at hr
        · simp at hr
        · exact (ih _ (tag + 1) bs).2 r hr
      · split at hr
        · obtain rfl : bs.drop 4 = r := by simpa using hr
          exact List.drop_suffix 4 bs
        · simp at hr
      · simp at hr
    · intro r hr
      simp only [skipMessage] at hr
      split at hr
      next => simp at hr
      next v rest hv =>
        have hrest : rest <:+ bs := varint_suffix 10 bs _ hv
        split_ifs at hr
        · obtain rfl : rest = r := by simpa using hr
          exact hrest
        · simp at hr
        · obtain ⟨u, hu, hur⟩ := Option.bind_eq_some_iff.mp hr
          have hskip := (ih _ _ rest).1 u hu
          have hmore := (ih _ _ u).2 r hur
          exact hmore.trans (hskip.trans hrest)

/-- Base-128 encoding of a number below `2 ^ (7 * k)`. -/
def encodeVarint : ℕ → ℕ → Bytes
  | 0, _ => []
  | k + 1, n =>
    if n < 128 then [UInt8.ofNat n]
    else UInt8.ofNat (n % 128 + 128) :: encodeVarint k (n / 128)

/-- Integers of either width are written as the varint of their 64-bit pattern. -/
def writeInt (number : ℕ) (v : ℤ) : Bytes :=
  encodeVarint 10 (number * 8) ++ encodeVarint 10 (v % 2 ^ 64).toNat

def writeString (number : ℕ) (b : Bytes) : Bytes :=
  encodeVarint 10 (number * 8 + 2) ++ encodeVarint 10 b.length ++ b

theorem left_readTag (s : Stream) (h : (readTag s).1 ≠ 0) :
    (readTag s).2.rest.length < s.rest.length := by
  unfold readTag at h ⊢
  split at h
  · simp at h
  · next hne =>
    cases hv : varint 10 s.rest with
    | none => simp [hv] at h
    | some r => simpa using varint_shrinks 10 s.rest r hv

theorem left_readSigned (width : ℕ) (s : Stream) :
    ∀ r ∈ readSigned width s, r.2.rest.length ≤ s.rest.length := by
  intro r hr
  obtain ⟨q, hq, rfl⟩ := Option.map_eq_some_iff.mp hr
  exact Nat.le_of_lt (varint_shrinks 10 s.rest q hq)

theorem left_readString (old : Bytes) (s : Stream) :
    ∀ t ∈ (readString old s).2, t.rest.length ≤ s.rest.length := by
  intro t ht
  unfold readString at ht
  split at ht
  next => simp at ht
  next v rest hv =>
    have hrest := varint_shrinks 10 s.rest _ hv
    simp only at hrest ht
    split_ifs at ht
    · simp at ht
    · obtain rfl := Option.some.inj ht
      simp only [List.length_drop]
      omega
    · simp at ht

/-- The wire format as a runtime, with the recursion limit of version 2.5. -/
def runtime : Runtime Stream where
  ofArray data := ⟨data, false⟩
  left s := s.rest.length
  readTag := readTag
  readInt32 := readSigned 32
  readInt64 := readSigned 64
  readString := readString
  skipField tag s :=
    (skip (2 * s.rest.length + 2) 64 tag s.rest).map fun r => ⟨r, s.legitimateEnd⟩
  consumedEntireMessage := Stream.legitimateEnd
  left_readTag := left_readTag
  left_readInt32 := left_readSigned 32
  left_readInt64 := left_readSigned 64
  left_readString := left_readString
  left_skipField tag s t ht := by
    obtain ⟨r, hr, rfl⟩ := Option.map_eq_some_iff.mp ht
    exact ((skip_suffix _ _ _ _).1 r hr).length_le
  writeInt32 := writeInt
  writeInt64 := writeInt
  writeString := writeString

end Protobuf.Wire
