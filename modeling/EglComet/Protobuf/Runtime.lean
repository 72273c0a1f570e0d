import Mathlib.Data.List.Basic
import Mathlib.Data.Int.Notation

/-!
The protobuf 2.x runtime as generated message code sees it. The runtime itself
is a parameter: a coded input stream whose reads never move backwards, and the
field writers. Parsing follows the shape every generated
`MergePartialFromCodedStream` shares, driven by the message's table of fields.
-/
namespace Protobuf

abbrev Bytes := List UInt8

/-- The calls a generated parser or serializer makes. `readTag` returns zero at the end of the
input and on a malformed tag; `readString` is given the string object it fills and returns what
it left there, also when it fails part-way. -/
structure Runtime (σ : Type) where
  ofArray : Bytes → σ
  left : σ → ℕ
  readTag : σ → ℕ × σ
  readInt32 : σ → Option (ℤ × σ)
  readInt64 : σ → Option (ℤ × σ)
  readString : Bytes → σ → Bytes × Option σ
  skipField : ℕ → σ → Option σ
  consumedEntireMessage : σ → Bool
  left_readTag : ∀ s, (readTag s).1 ≠ 0 → left (readTag s).2 < left s
  left_readInt32 : ∀ s, ∀ r ∈ readInt32 s, left r.2 ≤ left s
  left_readInt64 : ∀ s, ∀ r ∈ readInt64 s, left r.2 ≤ left s
  left_readString : ∀ old s, ∀ t ∈ (readString old s).2, left t ≤ left s
  left_skipField : ∀ tag s, ∀ t ∈ skipField tag s, left t ≤ left s
  writeInt32 : ℕ → ℤ → Bytes
  writeInt64 : ℕ → ℤ → Bytes
  writeString : ℕ → Bytes → Bytes

/-- One `case` of a generated parser. A string field is first entered (`mutable_x` sets its
has-bit, `add_x` appends an empty entry), then read into the entered object. -/
inductive Field (M : Type) where
  | int32 (number : ℕ) (set : M → ℤ → M)
  | int64 (number : ℕ) (set : M → ℤ → M)
  | string (number : ℕ) (enter : M → M) (content : M → Bytes) (store : M → Bytes → M)

def Field.number {M : Type} : Field M → ℕ
  | .int32 n _ | .int64 n _ | .string n _ _ _ => n

/-- `WIRETYPE_VARINT` for integers and `WIRETYPE_LENGTH_DELIMITED` for strings and bytes. -/
def Field.wireType {M : Type} : Field M → ℕ
  | .int32 .. | .int64 .. => 0
  | .string .. => 2

section Parse

variable {σ M : Type} (R : Runtime σ)

/-- Read one field into the message; the stream is absent when the read failed. -/
def Field.read : Field M → M → σ → M × Option σ
  | .int32 _ set, m, s =>
    match R.readInt32 s with
    | some (v, t) => (set m v, some t)
    | none => (m, none)
  | .int64 _ set, m, s =>
    match R.readInt64 s with
    | some (v, t) => (set m v, some t)
    | none => (m, none)
  | .string _ enter content store, m, s =>
    let r := R.readString (content (enter m)) s
    (store (enter m) r.1, r.2)

theorem Field.left_read (f : Field M) (m : M) (s : σ) :
    ∀ t ∈ (f.read R m s).2, R.left t ≤ R.left s := by
  cases f with
  | int32 n set =>
    intro t ht
    cases hr : R.readInt32 s with
    | none => simp [Field.read, hr] at ht
    | some r =>
      obtain rfl : r.2 = t := by simpa [Field.read, hr] using ht
      exact R.left_readInt32 s r hr
  | int64 n set =>
    intro t ht
    cases hr : R.readInt64 s with
    | none => simp [Field.read, hr] at ht
    | some r =>
      obtain rfl : r.2 = t := by simpa [Field.read, hr] using ht
      exact R.left_readInt64 s r hr
  | string n enter content store =>
    intro t ht
    exact R.left_readString _ s t ht

/-- The loop of `MergePartialFromCodedStream`: the message as far as it was filled, whether the
loop returned true, and the stream. `WIRETYPE_END_GROUP` is 4. The `ExpectTag` and `ExpectAtEnd`
shortcuts of the generated code agree with the next `ReadTag` and are not separate steps. -/
def mergePartial (fields : List (Field M)) (m : M) (s : σ) : M × Bool × σ :=
  let tag := (R.readTag s).1
  let t := (R.readTag s).2
  if ht : tag = 0 then (m, true, t)
  else
    match fields.find? fun f => f.number == tag / 8 && f.wireType == tag % 8 with
    | some f =>
      match hf : f.read R m t with
      | (m', some u) => mergePartial fields m' u
      | (m', none) => (m', false, t)
    | none =>
      if tag % 8 = 4 then (m, true, t)
      else
        match hk : R.skipField tag t with
        | some u => mergePartial fields m u
        | none => (m, false, t)
termination_by R.left s
decreasing_by
  · have hu : R.left u ≤ R.left t := Field.left_read R f m t u (by simp [hf])
    exact Nat.lt_of_le_of_lt hu (R.left_readTag s ht)
  · have hu : R.left u ≤ R.left t := R.left_skipField tag t u hk
    exact Nat.lt_of_le_of_lt hu (R.left_readTag s ht)

end Parse

/-- A message type: its cleared object, its fields and its required-field test. -/
structure MessageType (M : Type) where
  empty : M
  fields : List (Field M)
  isInitialized : M → Bool

/-- `ParseFromArray` and `ParseFromString`: clear, merge, then require every required field and a
legitimate end. The object keeps what was read whether or not the parse succeeds. -/
def MessageType.parseFromArray {σ M : Type} (T : MessageType M) (R : Runtime σ)
    (data : Bytes) : M × Bool :=
  let r := mergePartial R T.fields T.empty (R.ofArray data)
  (r.1, r.2.1 && T.isInitialized r.1 && R.consumedEntireMessage r.2.2)

theorem MessageType.isInitialized_of_parse {σ M : Type} (T : MessageType M) (R : Runtime σ)
    {data : Bytes} (h : (T.parseFromArray R data).2 = true) :
    T.isInitialized (T.parseFromArray R data).1 = true := by
  simp only [parseFromArray, Bool.and_eq_true] at h
  exact h.1.2

end Protobuf
