import EglComet.Protobuf.WriteRead
import Mathlib.Data.List.Nodup

/-!
The shortcuts of generated parsers. After each field the code compares the next
bytes with the tags that usually follow and jumps straight into the matching
`case`, past the loop head and past the `switch`; after the last field it asks
whether the input is at its end. The jumps are modelled as the generated code
makes them, and the parser they give is the loop of `mergePartial`.
-/
namespace Protobuf

/-- `ExpectTag` and `ExpectAtEnd`, which are absent where they return false. On the streams that a
parser passes them, a match is what the next `ReadTag` would have returned. -/
structure Shortcuts {σ : Type} (R : Runtime σ) where
  expectTag : ℕ → σ → Option σ
  expectAtEnd : σ → Option σ
  Ready : σ → Prop
  left_expectTag : ∀ tag s, ∀ t ∈ expectTag tag s, R.left t < R.left s
  readTag_of_expectTag : ∀ tag s, Ready s → ∀ t ∈ expectTag tag s, R.readTag s = (tag, t)
  readTag_of_expectAtEnd : ∀ s, Ready s → ∀ t ∈ expectAtEnd s, R.readTag s = (0, t)
  ready_ofArray : ∀ data, Ready (R.ofArray data)
  ready_readTag : ∀ s, Ready s → (R.readTag s).1 ≠ 0 → Ready (R.readTag s).2
  ready_readInt32 : ∀ s, Ready s → ∀ r ∈ R.readInt32 s, Ready r.2
  ready_readInt64 : ∀ s, Ready s → ∀ r ∈ R.readInt64 s, Ready r.2
  ready_readString : ∀ old s, Ready s → ∀ t ∈ (R.readString old s).2, Ready t
  ready_skipField : ∀ tag s, Ready s → ∀ t ∈ R.skipField tag s, Ready t

/-- How a `case` ends: the tags that are expected behind its field, each with the number of the
field whose label it jumps to, and whether the end of the input is expected after them. -/
structure Ending where
  expect : List (ℕ × ℕ) := []
  atEnd : Bool := false

/-- A `case` of a generated `switch`. -/
structure Case (M : Type) extends Ending where
  field : Field M

/-- The `switch` of a message, from the endings of its cases in the order of the fields. -/
def MessageType.cases {M : Type} (T : MessageType M) (endings : List Ending) : List (Case M) :=
  (T.fields.zip endings).map fun p => { p.2 with field := p.1 }

namespace Shortcuts

/-- Shortcuts that are never taken. -/
def never {σ : Type} (R : Runtime σ) : Shortcuts R where
  expectTag _ _ := none
  expectAtEnd _ := none
  Ready _ := True
  left_expectTag _ _ _ h := by simp at h
  readTag_of_expectTag _ _ _ _ h := by simp at h
  readTag_of_expectAtEnd _ _ _ h := by simp at h
  ready_ofArray _ := trivial
  ready_readTag _ _ _ := trivial
  ready_readInt32 _ _ _ _ := trivial
  ready_readInt64 _ _ _ _ := trivial
  ready_readString _ _ _ _ _ := trivial
  ready_skipField _ _ _ _ _ := trivial

variable {σ M : Type} {R : Runtime σ} (S : Shortcuts R)

/-- The `case` of a field number. -/
def label (cases : List (Case M)) (number : ℕ) : Option (Case M) :=
  cases.find? fun c => c.field.number == number

/-- The `switch` on a tag: the `case` of its number, if the wire type is the expected one. -/
def dispatch (cases : List (Case M)) (tag : ℕ) : Option (Case M) :=
  (label cases (tag / 8)).filter fun c => c.field.wireType == tag % 8

/-- The first of the expected tags that matches: the label it jumps to, and the stream behind
the tag. -/
def jump (cases : List (Case M)) : List (ℕ × ℕ) → σ → Option (Case M × σ)
  | [], _ => none
  | (tag, number) :: expect, s =>
    match S.expectTag tag s with
    | some t => (label cases number).map fun c => (c, t)
    | none => jump cases expect s

theorem left_jump (cases : List (Case M)) (expect : List (ℕ × ℕ)) (s : σ) :
    ∀ r ∈ S.jump cases expect s, R.left r.2 < R.left s := by
  induction expect with
  | nil => simp [jump]
  | cons p expect ih =>
    intro r hr
    simp only [jump] at hr
    split at hr
    · rename_i t ht
      obtain ⟨c, -, rfl⟩ := Option.map_eq_some_iff.mp hr
      exact S.left_expectTag p.1 s t ht
    · exact ih r hr

/-- A generated `MergePartialFromCodedStream`, from the head of its loop or from the label of a
`case`. -/
def mergeFrom (cases : List (Case M)) (entry : Option (Case M)) (m : M) (s : σ) : M × Bool × σ :=
  match entry with
  | none =>
    let tag := (R.readTag s).1
    let t := (R.readTag s).2
    if ht : tag = 0 then (m, true, t)
    else
      match dispatch cases tag with
      | some c => mergeFrom cases (some c) m t
      | none =>
        if tag % 8 = 4 then (m, true, t)
        else
          match hk : R.skipField tag t with
          | some u => mergeFrom cases none m u
          | none => (m, false, t)
  | some c =>
    match hf : c.field.read R m s with
    | (m', none) => (m', false, s)
    | (m', some u) =>
      match hj : S.jump cases c.expect u with
      | some (c', v) => mergeFrom cases (some c') m' v
      | none =>
        match if c.atEnd then S.expectAtEnd u else none with
        | some v => (m', true, v)
        | none => mergeFrom cases none m' u
termination_by (R.left s, if entry.isSome then 1 else 0)
decreasing_by
  · exact Prod.Lex.left _ _ (R.left_readTag s ht)
  · have hu : R.left u ≤ R.left t := R.left_skipField tag t u hk
    exact Prod.Lex.left _ _ (Nat.lt_of_le_of_lt hu (R.left_readTag s ht))
  · have hu : R.left u ≤ R.left s := Field.left_read R c.field m s u (by simp [hf])
    exact Prod.Lex.left _ _ (Nat.lt_of_lt_of_le (S.left_jump cases c.expect u _ hj) hu)
  · have hu : R.left u ≤ R.left s := Field.left_read R c.field m s u (by simp [hf])
    rcases Nat.lt_or_eq_of_le hu with hlt | heq
    · exact Prod.Lex.left _ _ hlt
    · rw [heq]
      exact Prod.Lex.right _ (by simp)

/-- The labels of a `switch` are distinct, and every expected tag is the tag of the field whose
label it jumps to. -/
def Linked (cases : List (Case M)) : Prop :=
  (cases.map fun c => c.field.number).Nodup ∧ ∀ c ∈ cases, ∀ p ∈ c.expect,
    p.1 ≠ 0 ∧ ∃ c' ∈ cases, c'.field.number = p.1 / 8 ∧ c'.field.wireType = p.1 % 8 ∧ p.2 = p.1 / 8

instance (cases : List (Case M)) : Decidable (Linked cases) :=
  inferInstanceAs (Decidable (_ ∧ ∀ c ∈ cases, ∀ p ∈ c.expect, _))

variable {cases : List (Case M)} {c : Case M} {m : M} {s : σ}

/-- What the loop does once it has read the tag of a field. -/
def resume (R : Runtime σ) (fields : List (Field M)) (f : Field M) (m : M) (t : σ) :
    M × Bool × σ :=
  match f.read R m t with
  | (m', some u) => mergePartial R fields m' u
  | (m', none) => (m', false, t)

theorem mergePartial_resume {fields : List (Field M)} {tag : ℕ} {t : σ} {f : Field M}
    (ht : R.readTag s = (tag, t)) (h0 : tag ≠ 0) (hf : Selects fields tag f) :
    mergePartial R fields m s = resume R fields f m t := by
  rw [resume]
  split
  · rename_i hr
    exact mergePartial_read ht h0 hf hr
  · rename_i m' hr
    rw [Selects] at hf
    rw [mergePartial]
    simp only [ht, dif_neg h0, hf]
    split
    next heq =>
      rw [ht, hr] at heq
      cases heq
    next heq =>
      rw [ht, hr] at heq
      cases heq
      rfl

/-- A tag without a field ends the message if it closes a group, and is skipped otherwise. -/
theorem mergePartial_unknown {fields : List (Field M)} {tag : ℕ} {t : σ}
    (ht : R.readTag s = (tag, t)) (h0 : tag ≠ 0)
    (hf : (fields.find? fun f => f.number == tag / 8 && f.wireType == tag % 8) = none) :
    mergePartial R fields m s =
      if tag % 8 = 4 then (m, true, t)
      else
        match R.skipField tag t with
        | some u => mergePartial R fields m u
        | none => (m, false, t) := by
  rw [mergePartial]
  simp only [ht, dif_neg h0, hf]
  congr 1
  split
  · rename_i hk
    rw [ht] at hk
    rw [hk]
  · rename_i hk
    rw [ht] at hk
    rw [hk]

theorem label_of_mem (hn : (cases.map fun c => c.field.number).Nodup) (hc : c ∈ cases) :
    label cases c.field.number = some c := by
  cases hl : label cases c.field.number with
  | none => simpa using List.find?_eq_none.mp hl c hc
  | some c' =>
    have hnum : c'.field.number = c.field.number := by simpa using List.find?_some hl
    rw [List.inj_on_of_nodup_map hn (List.mem_of_find?_eq_some hl) hc hnum]

/-- The `switch` and the table of fields select the same field. -/
theorem find?_eq_dispatch (hn : (cases.map fun c => c.field.number).Nodup) (tag : ℕ) :
    ((cases.map Case.field).find? fun f => f.number == tag / 8 && f.wireType == tag % 8) =
      (dispatch cases tag).map Case.field := by
  rw [List.find?_map]
  congr 1
  cases hd : dispatch cases tag with
  | none =>
    rw [List.find?_eq_none]
    intro c hc hsel
    obtain ⟨hnum, hwire⟩ : c.field.number = tag / 8 ∧ c.field.wireType = tag % 8 := by
      simpa using hsel
    rw [dispatch, ← hnum, label_of_mem hn hc] at hd
    simp [hwire] at hd
  | some c =>
    obtain ⟨hlab, hwire⟩ := Option.filter_eq_some_iff.mp hd
    have hc := List.mem_of_find?_eq_some hlab
    have hnum := List.find?_some hlab
    cases hf : cases.find?
        ((fun f => f.number == tag / 8 && f.wireType == tag % 8) ∘ Case.field) with
    | none => simpa [hnum, hwire] using List.find?_eq_none.mp hf c hc
    | some c' =>
      have hsel := List.find?_some hf
      have hsame : c'.field.number = c.field.number := by
        simp_all
      rw [List.inj_on_of_nodup_map hn (List.mem_of_find?_eq_some hf) hc hsame]

theorem selects_of_dispatch (hn : (cases.map fun c => c.field.number).Nodup) {tag : ℕ}
    (hd : dispatch cases tag = some c) : Selects (cases.map Case.field) tag c.field := by
  rw [Selects, find?_eq_dispatch hn, hd]
  rfl

theorem mem_of_dispatch {tag : ℕ} (hd : dispatch cases tag = some c) : c ∈ cases :=
  List.mem_of_find?_eq_some (Option.filter_eq_some_iff.mp hd).1

/-- A jump goes where the loop would have gone. -/
theorem resume_of_jump (hn : (cases.map fun c => c.field.number).Nodup) {u v : σ} {c' : Case M}
    {expect : List (ℕ × ℕ)}
    (he : ∀ p ∈ expect, p.1 ≠ 0 ∧ ∃ c' ∈ cases, c'.field.number = p.1 / 8 ∧
      c'.field.wireType = p.1 % 8 ∧ p.2 = p.1 / 8)
    (hu : S.Ready u) (hj : S.jump cases expect u = some (c', v)) :
    c' ∈ cases ∧ S.Ready v ∧
      mergePartial R (cases.map Case.field) m u = resume R (cases.map Case.field) c'.field m v := by
  induction expect with
  | nil => simp [jump] at hj
  | cons p expect ih =>
    rw [jump] at hj
    cases ht : S.expectTag p.1 u with
    | none =>
      rw [ht] at hj
      exact ih (fun q hq => he q (List.mem_cons_of_mem p hq)) hj
    | some t =>
      rw [ht] at hj
      obtain ⟨h0, d, hd, hnum, hwire, hp⟩ := he p List.mem_cons_self
      rw [hp, ← hnum, label_of_mem hn hd] at hj
      obtain ⟨rfl, rfl⟩ : d = c' ∧ t = v := by simpa using hj
      have hread := S.readTag_of_expectTag p.1 u hu t ht
      have hsel : dispatch cases p.1 = some d := by
        rw [dispatch, ← hnum, label_of_mem hn hd]
        simp [hwire]
      refine ⟨hd, ?_, mergePartial_resume hread h0 (selects_of_dispatch hn hsel)⟩
      have hr := S.ready_readTag u hu (by rwa [hread])
      rwa [hread] at hr

theorem ready_read (f : Field M) {u : σ} {m' : M} (hs : S.Ready s)
    (hf : f.read R m s = (m', some u)) : S.Ready u := by
  cases f with
  | int32 n set =>
    cases hr : R.readInt32 s with
    | none => simp [Field.read, hr] at hf
    | some r =>
      obtain ⟨-, rfl⟩ : set m r.1 = m' ∧ r.2 = u := by simpa [Field.read, hr] using hf
      exact S.ready_readInt32 s hs r hr
  | int64 n set =>
    cases hr : R.readInt64 s with
    | none => simp [Field.read, hr] at hf
    | some r =>
      obtain ⟨-, rfl⟩ : set m r.1 = m' ∧ r.2 = u := by simpa [Field.read, hr] using hf
      exact S.ready_readInt64 s hs r hr
  | string n enter content store =>
    obtain ⟨-, hr⟩ := Prod.mk.inj hf
    exact S.ready_readString _ s hs u hr

/-- What the plain loop does from a point of a generated parser. -/
def plain (R : Runtime σ) (fields : List (Field M)) (entry : Option (Case M)) (m : M) (s : σ) :
    M × Bool × σ :=
  match entry with
  | none => mergePartial R fields m s
  | some c => resume R fields c.field m s

/-- A generated parser does what the plain loop does, from the loop head and from every label. -/
theorem mergeFrom_eq (hl : Linked cases) (entry : Option (Case M)) (m : M) (s : σ)
    (hs : S.Ready s) (hc : ∀ c ∈ entry, c ∈ cases) :
    S.mergeFrom cases entry m s = plain R (cases.map Case.field) entry m s := by
  fun_induction S.mergeFrom cases entry m s with
  | case1 m s tag t h0 =>
    exact (mergePartial_end (Prod.ext h0 rfl)).symm
  | case2 m s tag t h0 c hd ih =>
    rw [ih (S.ready_readTag s hs h0) fun c' hc' => Option.mem_some.mp hc' ▸ mem_of_dispatch hd]
    exact (mergePartial_resume rfl h0 (selects_of_dispatch hl.1 hd)).symm
  | case3 m s tag t h0 hd hg =>
    have hf := (find?_eq_dispatch hl.1 tag).trans (congrArg _ hd)
    rw [plain, mergePartial_unknown rfl h0 hf, if_pos hg]
  | case4 m s tag t h0 hd hg u hk ih =>
    have hf := (find?_eq_dispatch hl.1 tag).trans (congrArg _ hd)
    have hu := S.ready_skipField tag t (S.ready_readTag s hs h0) u hk
    rw [ih hu hc, plain, plain, mergePartial_unknown rfl h0 hf, if_neg hg, hk]
  | case5 m s tag t h0 hd hg hk =>
    have hf := (find?_eq_dispatch hl.1 tag).trans (congrArg _ hd)
    rw [plain, mergePartial_unknown rfl h0 hf, if_neg hg, hk]
  | case6 m s c m' hf => simp [plain, resume, hf]
  | case7 m s c m' u hf c' v hj ih =>
    have hu := S.ready_read c.field hs hf
    obtain ⟨hc', hv, heq⟩ := S.resume_of_jump hl.1 (hl.2 c (hc c rfl)) hu hj
    rw [ih hv fun d hd => Option.mem_some.mp hd ▸ hc']
    simp only [plain, resume, hf]
    exact heq.symm
  | case8 m s c m' u hf hj v hv =>
    have hu := S.ready_read c.field hs hf
    have hend : S.expectAtEnd u = some v := by
      split_ifs at hv with he
      exact hv
    simp only [plain, resume, hf]
    exact (mergePartial_end (S.readTag_of_expectAtEnd u hu v hend)).symm
  | case9 m s c m' u hf hj hv ih =>
    rw [ih (S.ready_read c.field hs hf) (by simp)]
    simp only [plain, resume, hf]

/-- `ParseFromArray` of a message with its generated parser. -/
def parseFromArray (T : MessageType M) (endings : List Ending) (data : Bytes) : M × Bool :=
  let r := S.mergeFrom (T.cases endings) none T.empty (R.ofArray data)
  (r.1, r.2.1 && T.isInitialized r.1 && R.consumedEntireMessage r.2.2)

theorem map_field_cases {T : MessageType M} {endings : List Ending}
    (h : endings.length = T.fields.length) : (T.cases endings).map Case.field = T.fields := by
  rw [MessageType.cases, List.map_map]
  exact List.map_fst_zip (Nat.le_of_eq h.symm)

theorem parseFromArray_eq {T : MessageType M} {endings : List Ending}
    (h : endings.length = T.fields.length) (hl : Linked (T.cases endings)) (data : Bytes) :
    S.parseFromArray T endings data = T.parseFromArray R data := by
  rw [parseFromArray, S.mergeFrom_eq hl none T.empty _ (S.ready_ofArray data) (by simp), plain,
    map_field_cases h]
  rfl

end Shortcuts

namespace Wire

/-- `ExpectTag` compares the bytes of a tag that takes one or two. -/
def expectTag (expected : ℕ) (s : Stream) : Option Stream :=
  match s.rest with
  | b :: rest =>
    if expected < 128 then
      if b.toNat = expected then some ⟨rest, s.legitimateEnd⟩ else none
    else
      match rest with
      | b' :: rest' =>
        if expected < 16384 ∧ b.toNat = expected % 128 + 128 ∧ b'.toNat = expected / 128 then
          some ⟨rest', s.legitimateEnd⟩
        else none
      | [] => none
  | [] => none

/-- `ExpectAtEnd` notes that the message ended where it may. -/
def expectAtEnd (s : Stream) : Option Stream :=
  if s.rest = [] then some ⟨[], true⟩ else none

theorem expectTag_cases {expected : ℕ} {s t : Stream} (h : expectTag expected s = some t) :
    varint 10 s.rest = some (expected, t.rest) ∧ expected < 16384 ∧
      t.legitimateEnd = s.legitimateEnd := by
  unfold expectTag at h
  split at h
  · rename_i b rest hrest
    rw [hrest]
    split_ifs at h with hlow hb
    · obtain rfl := Option.some.inj h
      exact ⟨by simp [varint, hb, hlow], by omega, rfl⟩
    · split at h
      · rename_i b' rest'
        split_ifs at h with hmid
        obtain rfl := Option.some.inj h
        obtain ⟨hlt, hb, hb'⟩ := hmid
        refine ⟨?_, hlt, rfl⟩
        have hlow' : b'.toNat < 128 := by omega
        rw [varint, hb, if_neg (by omega), varint, if_pos hlow', hb']
        simp only [Option.map_some, Option.some.injEq, Prod.mk.injEq, and_true]
        omega
      · simp at h
  · simp at h

theorem readTag_of_varint {s : Stream} {v : ℕ} {rest : Bytes}
    (h : varint 10 s.rest = some (v, rest)) : readTag s = (v % 2 ^ 32, ⟨rest, false⟩) := by
  cases hr : s.rest with
  | nil => simp [hr, varint] at h
  | cons b bs =>
    rw [hr] at h
    simp only [readTag, hr, h]

theorem readTag_flag {s : Stream} (h : (readTag s).1 ≠ 0) :
    (readTag s).2.legitimateEnd = false := by
  cases hv : varint 10 s.rest with
  | some r => rw [readTag_of_varint hv]
  | none =>
    cases hr : s.rest with
    | nil => simp [readTag, hr] at h
    | cons b bs =>
      rw [hr] at hv
      simp [readTag, hr, hv] at h

theorem readString_flag {old : Bytes} {s t : Stream} (h : (readString old s).2 = some t) :
    t.legitimateEnd = s.legitimateEnd := by
  unfold readString at h
  split at h
  · simp at h
  · dsimp only at h
    split_ifs at h
    obtain rfl := Option.some.inj h
    rfl

/-- The shortcuts over flat arrays. They are exact as long as no `ReadTag` has met the end, which
is when a parser uses them. -/
def shortcuts : Shortcuts runtime where
  expectTag := expectTag
  expectAtEnd := expectAtEnd
  Ready s := s.legitimateEnd = false
  left_expectTag tag s t ht := varint_shrinks 10 s.rest _ (expectTag_cases ht).1
  readTag_of_expectTag tag s hs t ht := by
    obtain ⟨hv, hlt, hflag⟩ := expectTag_cases ht
    have hmod : tag % 2 ^ 32 = tag := Nat.mod_eq_of_lt (by omega)
    rw [show runtime.readTag s = readTag s from rfl, readTag_of_varint hv, hmod, ← hs, ← hflag]
  readTag_of_expectAtEnd s _ t ht := by
    unfold expectAtEnd at ht
    split_ifs at ht with hr
    · obtain rfl := Option.some.inj ht
      simp only [runtime, readTag, hr]
    · simp at ht
  ready_ofArray _ := rfl
  ready_readTag _ _ h := readTag_flag h
  ready_readInt32 s hs r hr := by
    obtain ⟨q, -, rfl⟩ := Option.map_eq_some_iff.mp hr
    exact hs
  ready_readInt64 s hs r hr := by
    obtain ⟨q, -, rfl⟩ := Option.map_eq_some_iff.mp hr
    exact hs
  ready_readString _ _ hs _ ht := (readString_flag ht).trans hs
  ready_skipField tag s hs t ht := by
    obtain ⟨r, -, rfl⟩ := Option.map_eq_some_iff.mp ht
    exact hs

end Wire

end Protobuf
