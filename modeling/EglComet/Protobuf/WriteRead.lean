import EglComet.Protobuf.WireFormat

/-!
Reading back what a runtime wrote. What is assumed of the protobuf library is
named in `Runtime.Writers` and `Runtime.Conforms`. A written field, whatever
follows it, is then taken in by the parser of any message that has the field; a
field that is cut off is refused. Messages are read field by field, so both
facts compose.
-/
namespace Protobuf

/-- What every completed read of a field preserves holds of a message whose parse went through. -/
theorem mergePartial_invariant {σ M : Type} {R : Runtime σ} {fields : List (Field M)} {P : M → Prop}
    (hread : ∀ f ∈ fields, ∀ m s m' u, P m → f.read R m s = (m', some u) → P m') {m : M} {s : σ}
    (hm : P m) (h : (mergePartial R fields m s).2.1 = true) : P (mergePartial R fields m s).1 := by
  fun_induction mergePartial R fields m s with
  | case1 => exact hm
  | case2 m s t tag ht f hf m' u hr ih =>
    exact ih (hread f (List.mem_of_find?_eq_some hf) m _ m' u hm hr) h
  | case3 => simp at h
  | case4 => exact hm
  | case5 m s t tag ht hf hg u hk ih => exact ih hm h
  | case6 => simp at h

section Turn

variable {σ M : Type} {R : Runtime σ} {fields : List (Field M)} {m m' : M} {s t u : σ} {tag : ℕ}
  {f : Field M}

/-- The field of a message that a tag selects. -/
def Selects (fields : List (Field M)) (tag : ℕ) (f : Field M) : Prop :=
  (fields.find? fun g => g.number == tag / 8 && g.wireType == tag % 8) = some f

theorem Selects.mem (hf : Selects fields tag f) : f ∈ fields := List.mem_of_find?_eq_some hf

theorem Selects.tag_eq (hf : Selects fields tag f) : f.number * 8 + f.wireType = tag := by
  have hsel := List.find?_some hf
  simp only [Bool.and_eq_true, beq_iff_eq] at hsel
  omega

theorem mergePartial_read (ht : R.readTag s = (tag, t)) (h0 : tag ≠ 0) (hf : Selects fields tag f)
    (hr : f.read R m t = (m', some u)) :
    mergePartial R fields m s = mergePartial R fields m' u := by
  rw [Selects] at hf
  rw [mergePartial]
  simp only [ht, dif_neg h0, hf]
  split
  next heq =>
    rw [ht, hr] at heq
    cases heq
    rfl
  next heq =>
    rw [ht, hr] at heq
    cases heq

theorem mergePartial_refused (ht : R.readTag s = (tag, t)) (h0 : tag ≠ 0)
    (hf : Selects fields tag f) (hr : (f.read R m t).2 = none) :
    mergePartial R fields m s = ((f.read R m t).1, false, t) := by
  rw [Selects] at hf
  rw [mergePartial]
  simp only [ht, dif_neg h0, hf]
  split
  next heq =>
    rw [ht] at heq
    simp [heq] at hr
  next heq =>
    rw [ht] at heq
    rw [heq]

theorem mergePartial_end (ht : R.readTag s = (0, t)) :
    mergePartial R fields m s = (m, true, t) := by
  rw [mergePartial]
  simp [ht]

end Turn

namespace Wire

theorem toNat_ofNat_low {n : ℕ} (h : n < 128) : (UInt8.ofNat n).toNat = n := by
  rw [UInt8.toNat_ofNat']
  omega

theorem toNat_ofNat_more (n : ℕ) : (UInt8.ofNat (n % 128 + 128)).toNat = n % 128 + 128 := by
  rw [UInt8.toNat_ofNat']
  omega

theorem varint_encodeVarint {k n : ℕ} (h : n < 128 ^ (k + 1)) (rest : Bytes) :
    varint (k + 1) (encodeVarint (k + 1) n ++ rest) = some (n, rest) := by
  induction k generalizing n with
  | zero =>
    have hn : n < 128 := by simpa using h
    simp [encodeVarint, varint, hn, toNat_ofNat_low hn]
  | succ k ih =>
    rw [encodeVarint]
    split_ifs with hn
    · simp [varint, toNat_ofNat_low hn, hn]
    · have hrest := ih (n := n / 128) (by rw [Nat.pow_succ] at h; omega)
      rw [List.cons_append, varint, toNat_ofNat_more, if_neg (by omega), hrest]
      simp only [Option.map_some, Option.some.injEq, Prod.mk.injEq, and_true]
      omega

/-- A varint that is cut off is refused. -/
theorem varint_cut {k n : ℕ} {p : Bytes} (h : p <+: encodeVarint k n) (hne : p ≠ encodeVarint k n) :
    varint k p = none := by
  induction k generalizing n p with
  | zero => rfl
  | succ k ih =>
    cases p with
    | nil => rfl
    | cons b p =>
      rw [encodeVarint] at h hne
      split_ifs at h hne with hn
      · obtain ⟨q, hq⟩ := h
        obtain ⟨rfl, hp⟩ : b = UInt8.ofNat n ∧ p ++ q = [] := by simpa using hq
        simp_all
      · obtain ⟨rfl, hp⟩ := List.cons_prefix_cons.mp h
        have hcut : varint k p = none := ih hp fun heq => hne (by rw [heq])
        rw [varint, toNat_ofNat_more, if_neg (by omega), hcut]
        rfl

theorem ofNat_more_ne_zero (n : ℕ) : UInt8.ofNat (n % 128 + 128) ≠ 0 := by
  rw [ne_eq, ← UInt8.toNat_inj, toNat_ofNat_more]
  exact Nat.succ_ne_zero _

theorem ofNat_low_eq_zero {n : ℕ} (h : n < 128) : UInt8.ofNat n = 0 ↔ n = 0 := by
  rw [← UInt8.toNat_inj, toNat_ofNat_low h]
  rfl

/-- Only the varint of zero has a zero byte. -/
theorem zero_mem_encodeVarint (k n : ℕ) : 0 ∈ encodeVarint (k + 1) n ↔ n = 0 := by
  induction k generalizing n with
  | zero =>
    rw [encodeVarint]
    split_ifs with hn
    · rw [List.mem_singleton, eq_comm, ofNat_low_eq_zero hn]
    · rw [encodeVarint, List.mem_singleton]
      exact iff_of_false (ofNat_more_ne_zero n).symm (by omega)
  | succ k ih =>
    rw [encodeVarint]
    split_ifs with hn
    · rw [List.mem_singleton, eq_comm, ofNat_low_eq_zero hn]
    · rw [List.mem_cons, ih]
      refine iff_of_false ?_ (by omega)
      rintro (h | h)
      · exact ofNat_more_ne_zero n h.symm
      · omega

theorem zero_mem_writeInt {number : ℕ} (h : number ≠ 0) (v : ℤ) :
    0 ∈ writeInt number v ↔ v % 2 ^ 64 = 0 := by
  rw [writeInt, List.mem_append, zero_mem_encodeVarint, zero_mem_encodeVarint]
  omega

theorem zero_mem_writeString (number : ℕ) (b : Bytes) :
    0 ∈ writeString number b ↔ b = [] ∨ 0 ∈ b := by
  rw [writeString, List.mem_append, List.mem_append, zero_mem_encodeVarint, zero_mem_encodeVarint,
    List.length_eq_zero_iff]
  simp

theorem length_encodeVarint_le (k n : ℕ) : (encodeVarint k n).length ≤ k := by
  induction k generalizing n with
  | zero => simp [encodeVarint]
  | succ k ih =>
    rw [encodeVarint]
    split_ifs
    · simp
    · simpa using ih (n / 128)

/-- The number of bytes of a varint. -/
def varintSize (n : ℕ) : ℕ := (encodeVarint 10 n).length

theorem varintSize_le (n : ℕ) : varintSize n ≤ 10 := length_encodeVarint_le 10 n

theorem one_le_varintSize (n : ℕ) : 1 ≤ varintSize n := by
  rw [varintSize, encodeVarint]
  split_ifs <;> simp

theorem varintSize_low {n : ℕ} (h : n < 128) : varintSize n = 1 := by
  simp [varintSize, encodeVarint, h]

theorem varintSize_mid {n : ℕ} (h : 128 ≤ n) (h' : n < 16384) : varintSize n = 2 := by
  have hn : ¬ n < 128 := by omega
  have hd : n / 128 < 128 := by omega
  simp [varintSize, encodeVarint, hn, hd]

theorem length_writeInt {number : ℕ} (h : number < 16) (v : ℤ) :
    (writeInt number v).length = 1 + varintSize (v % 2 ^ 64).toNat := by
  rw [writeInt, List.length_append]
  exact congrArg (· + _) (varintSize_low (by omega))

theorem length_writeString {number : ℕ} (h : number < 15) (b : Bytes) :
    (writeString number b).length = 1 + varintSize b.length + b.length := by
  rw [writeString, List.length_append, List.length_append]
  exact congrArg (· + _ + _) (varintSize_low (by omega))

end Wire

namespace Runtime

open Wire

/-- The field writers follow the documented format: a tag of field number and wire type, and behind
it a base-128 varint, or a length and the bytes. -/
structure Writers {σ : Type} (R : Runtime σ) : Prop where
  int32 : ∀ number v, R.writeInt32 number v = writeInt number v
  int64 : ∀ number v, R.writeInt64 number v = writeInt number v
  string : ∀ number b, R.writeString number b = Wire.writeString number b

theorem Writers.length_string {σ : Type} {R : Runtime σ} (W : R.Writers) {number : ℕ}
    (h : number < 15) (b : Bytes) :
    (R.writeString number b).length = 1 + varintSize b.length + b.length := by
  rw [W.string, length_writeString h]

/-- The library reads what it writes, and says so when the input ends inside a value: `unread` is
what a stream has left. A varint is cut to the width of the field; a string that is cut off leaves
in its object the bytes that were there, or what was in it if not even its length was. An unknown
field is skipped forwards. -/
structure Conforms {σ : Type} (R : Runtime σ) (unread : σ → Bytes) : Prop extends Writers R where
  unread_ofArray : ∀ bs, unread (R.ofArray bs) = bs
  readTag : ∀ s tag rest, tag < 2 ^ 32 → unread s = encodeVarint 10 tag ++ rest →
    ∃ t, R.readTag s = (tag, t) ∧ unread t = rest
  readTag_end : ∀ s, unread s = [] →
    ∃ t, R.readTag s = (0, t) ∧ R.consumedEntireMessage t = true
  readTag_cut : ∀ s tag, unread s ≠ [] → unread s <+: encodeVarint 10 tag →
    unread s ≠ encodeVarint 10 tag →
      ∃ t, R.readTag s = (0, t) ∧ R.consumedEntireMessage t = false
  readInt32 : ∀ s n rest, n < 2 ^ 64 → unread s = encodeVarint 10 n ++ rest →
    ∃ t, R.readInt32 s = some ((n : ℤ).bmod (2 ^ 32), t) ∧ unread t = rest
  readInt32_cut : ∀ s n, unread s <+: encodeVarint 10 n → unread s ≠ encodeVarint 10 n →
    R.readInt32 s = none
  readInt64 : ∀ s n rest, n < 2 ^ 64 → unread s = encodeVarint 10 n ++ rest →
    ∃ t, R.readInt64 s = some ((n : ℤ).bmod (2 ^ 64), t) ∧ unread t = rest
  readInt64_cut : ∀ s n, unread s <+: encodeVarint 10 n → unread s ≠ encodeVarint 10 n →
    R.readInt64 s = none
  readString : ∀ old s b rest, b.length < 2 ^ 31 →
    unread s = encodeVarint 10 b.length ++ (b ++ rest) →
      ∃ t, R.readString old s = (b, some t) ∧ unread t = rest
  readString_cutLength : ∀ old s n, unread s <+: encodeVarint 10 n →
    unread s ≠ encodeVarint 10 n → R.readString old s = (old, none)
  readString_cut : ∀ old s n p, n < 2 ^ 31 → unread s = encodeVarint 10 n ++ p → p.length < n →
    R.readString old s = (p, none)
  readString_lt : ∀ old s b t, R.readString old s = (b, some t) → b.length < 2 ^ 31
  skipField_suffix : ∀ tag s t, R.skipField tag s = some t → unread t <:+ unread s

end Runtime

/-- A prefix of two parts ends in the first or contains it. -/
theorem prefix_append_cases {p bs cs : Bytes} (h : p <+: bs ++ cs) :
    (p <+: bs ∧ p ≠ bs) ∨ ∃ q, p = bs ++ q ∧ q <+: cs := by
  rcases Nat.lt_or_ge p.length bs.length with hlt | hge
  · refine Or.inl ⟨List.prefix_of_prefix_length_le h (List.prefix_append bs cs)
      (Nat.le_of_lt hlt), ?_⟩
    rintro rfl
    exact Nat.lt_irrefl _ hlt
  · obtain ⟨q, rfl⟩ := List.prefix_of_prefix_length_le (List.prefix_append bs cs) h hge
    exact Or.inr ⟨q, rfl, (List.prefix_append_right_inj bs).mp h⟩

section Message

open Wire

variable {σ M : Type} {R : Runtime σ} {unread : σ → Bytes} {fields : List (Field M)}

/-- The bytes are read as one field or several, with this effect on the message. -/
def Reads (R : Runtime σ) (unread : σ → Bytes) (fields : List (Field M)) (bs : Bytes)
    (upd : M → M) : Prop :=
  ∀ m s rest, unread s = bs ++ rest →
    ∃ t, unread t = rest ∧ mergePartial R fields m s = mergePartial R fields (upd m) t

theorem Reads.nil : Reads R unread fields [] id := fun _ s _ h => ⟨s, h, rfl⟩

theorem Reads.append {bs cs : Bytes} {upd upd' : M → M} (h : Reads R unread fields bs upd)
    (h' : Reads R unread fields cs upd') : Reads R unread fields (bs ++ cs) (upd' ∘ upd) := by
  intro m s rest hs
  rw [List.append_assoc] at hs
  obtain ⟨t, ht, hm⟩ := h m s _ hs
  obtain ⟨u, hu, hm'⟩ := h' (upd m) t rest ht
  exact ⟨u, hu, hm.trans hm'⟩

/-- No message is complete after these bytes: the parse fails or stops inside a tag. -/
def Refuses (R : Runtime σ) (unread : σ → Bytes) (fields : List (Field M)) (bs : Bytes) : Prop :=
  ∀ m s, unread s = bs → (mergePartial R fields m s).2.1 = true →
    R.consumedEntireMessage (mergePartial R fields m s).2.2 = false

theorem Reads.refuses {bs cs : Bytes} {upd : M → M} (h : Reads R unread fields bs upd)
    (hc : Refuses R unread fields cs) : Refuses R unread fields (bs ++ cs) := by
  intro m s hs
  obtain ⟨t, ht, hm⟩ := h m s cs hs
  rw [hm]
  exact hc (upd m) t ht

namespace Runtime.Conforms

variable (C : R.Conforms unread)

include C

theorem reads_of_read {tag : ℕ} {f : Field M} {bs : Bytes} {upd : M → M} (h0 : tag ≠ 0)
    (h : tag < 2 ^ 32) (hf : Selects fields tag f)
    (hr : ∀ m s rest, unread s = bs ++ rest →
      ∃ t, unread t = rest ∧ f.read R m s = (upd m, some t)) :
    Reads R unread fields (encodeVarint 10 tag ++ bs) upd := by
  intro m s rest hs
  rw [List.append_assoc] at hs
  obtain ⟨t, ht, hrest⟩ := C.readTag s tag _ h hs
  obtain ⟨u, hu, hread⟩ := hr m t rest hrest
  exact ⟨u, hu, mergePartial_read ht h0 hf hread⟩

/-- An `int32` field is read back modulo `2 ^ 32`. -/
theorem reads_int32_bmod {number : ℕ} {set : M → ℤ → M} (v : ℤ) (h0 : number ≠ 0)
    (h : number < 2 ^ 29) (hf : Selects fields (number * 8) (.int32 number set)) :
    Reads R unread fields (R.writeInt32 number v)
      (set · ((((v % 2 ^ 64).toNat : ℕ) : ℤ).bmod (2 ^ 32))) := by
  rw [C.int32]
  refine C.reads_of_read (by omega) (by omega) hf fun m s rest hs => ?_
  obtain ⟨t, ht, hrest⟩ := C.readInt32 s _ rest (by omega) hs
  exact ⟨t, hrest, by simp only [Field.read, ht]⟩

theorem reads_int32 {number : ℕ} {set : M → ℤ → M} {v : ℤ} (h0 : number ≠ 0)
    (h : number < 2 ^ 29) (hf : Selects fields (number * 8) (.int32 number set))
    (hv : -2 ^ 31 ≤ v ∧ v < 2 ^ 31) :
    Reads R unread fields (R.writeInt32 number v) (set · v) := by
  have hback : (((v % 2 ^ 64).toNat : ℕ) : ℤ).bmod (2 ^ 32) = v := by
    rw [Int.bmod_def]
    split_ifs <;> omega
  have hr := C.reads_int32_bmod v h0 h hf
  rw [hback] at hr
  exact hr

theorem reads_int64 {number : ℕ} {set : M → ℤ → M} {v : ℤ} (h0 : number ≠ 0)
    (h : number < 2 ^ 29) (hf : Selects fields (number * 8) (.int64 number set))
    (hv : -2 ^ 63 ≤ v ∧ v < 2 ^ 63) :
    Reads R unread fields (R.writeInt64 number v) (set · v) := by
  have hback : (((v % 2 ^ 64).toNat : ℕ) : ℤ).bmod (2 ^ 64) = v := by
    rw [Int.bmod_def]
    split_ifs <;> omega
  rw [C.int64]
  refine C.reads_of_read (by omega) (by omega) hf fun m s rest hs => ?_
  obtain ⟨t, ht, hrest⟩ := C.readInt64 s _ rest (by omega) hs
  exact ⟨t, hrest, by simp only [Field.read, ht, hback]⟩

theorem reads_string {number : ℕ} {enter : M → M} {content : M → Bytes} {store : M → Bytes → M}
    {b : Bytes} (h : number < 2 ^ 29)
    (hf : Selects fields (number * 8 + 2) (.string number enter content store))
    (hb : b.length < 2 ^ 31) :
    Reads R unread fields (R.writeString number b) (fun m => store (enter m) b) := by
  rw [C.string, Wire.writeString, List.append_assoc]
  refine C.reads_of_read (by omega) (by omega) hf fun m s rest hs => ?_
  rw [List.append_assoc] at hs
  obtain ⟨t, ht, hrest⟩ := C.readString (content (enter m)) s b rest hb hs
  exact ⟨t, hrest, by simp only [Field.read, ht]⟩

/-- The whole input of a parse is read, field after field. -/
theorem parse {T : MessageType M} {bs : Bytes} {upd : M → M} (h : Reads R unread T.fields bs upd) :
    T.parseFromArray R bs = (upd T.empty, T.isInitialized (upd T.empty)) := by
  have hstart : unread (R.ofArray bs) = bs ++ [] := by rw [C.unread_ofArray, List.append_nil]
  obtain ⟨t, ht, hm⟩ := h T.empty _ [] hstart
  obtain ⟨u, hu, hend⟩ := C.readTag_end t ht
  rw [mergePartial_end hu] at hm
  simp only [MessageType.parseFromArray, hm, Bool.true_and, hend, Bool.and_true]

theorem parse_refused {T : MessageType M} {bs : Bytes} (h : Refuses R unread T.fields bs) :
    (T.parseFromArray R bs).2 = false := by
  have hbs := h T.empty (R.ofArray bs) (C.unread_ofArray bs)
  simp only [MessageType.parseFromArray, Bool.and_eq_false_iff]
  cases hm : (mergePartial R T.fields T.empty (R.ofArray bs)).2.1 with
  | false => exact Or.inl (Or.inl rfl)
  | true => exact Or.inr (hbs hm)

/-- A field of which only a part has been written is refused. -/
theorem refuses_of_cut {tag : ℕ} {f : Field M} {bs p : Bytes} (ht : tag ≠ 0) (h : tag < 2 ^ 32)
    (hf : Selects fields tag f)
    (hr : ∀ m s, unread s <+: bs → unread s ≠ bs → (f.read R m s).2 = none) (h0 : p ≠ [])
    (hp : p <+: encodeVarint 10 tag ++ bs) (hne : p ≠ encodeVarint 10 tag ++ bs) :
    Refuses R unread fields p := by
  intro m s hs hm
  rcases prefix_append_cases hp with ⟨hpre, hneq⟩ | ⟨q, rfl, hq⟩
  · rw [← hs] at h0 hpre hneq
    obtain ⟨t, htag, hend⟩ := C.readTag_cut s tag h0 hpre hneq
    rw [mergePartial_end htag]
    exact hend
  · obtain ⟨t, htag, hrest⟩ := C.readTag s tag q h hs
    rw [← hrest] at hq
    have hfail := mergePartial_refused (m := m) htag ht hf
      (hr m t hq fun heq => hne (by rw [← heq, hrest]))
    simp [hfail] at hm

theorem refuses_int (number : ℕ) {f : Field M} {v : ℤ} {p : Bytes} (hn : number ≠ 0)
    (h : number < 2 ^ 29) (hf : Selects fields (number * 8) f) (hv : f.wireType = 0) (h0 : p ≠ [])
    (hp : p <+: writeInt number v) (hne : p ≠ writeInt number v) :
    Refuses R unread fields p := by
  refine C.refuses_of_cut (by omega) (by omega) hf (fun m s hq hqne => ?_) h0 hp hne
  cases f with
  | int32 number set => simp only [Field.read, C.readInt32_cut s _ hq hqne]
  | int64 number set => simp only [Field.read, C.readInt64_cut s _ hq hqne]
  | string => simp [Field.wireType] at hv

/-- A string that is cut off inside its length leaves the object, and later the bytes that were
there. -/
theorem readString_prefix (old : Bytes) {b : Bytes} {s : σ} (hb : b.length < 2 ^ 31)
    (hp : unread s <+: encodeVarint 10 b.length ++ b)
    (hne : unread s ≠ encodeVarint 10 b.length ++ b) :
    R.readString old s =
      (if (unread s).length < varintSize b.length then old
        else b.take ((unread s).length - varintSize b.length), none) := by
  rcases prefix_append_cases hp with ⟨hpre, hneq⟩ | ⟨r, hs, hr⟩
  · have hlt : (unread s).length < varintSize b.length :=
      Nat.lt_of_le_of_ne hpre.length_le fun heq => hneq (hpre.eq_of_length heq)
    rw [if_pos hlt, C.readString_cutLength old s _ hpre hneq]
  · have hshort : r.length < b.length := by
      refine Nat.lt_of_le_of_ne hr.length_le fun heq => hne ?_
      rw [hs, hr.eq_of_length heq]
    have hlen : (unread s).length = varintSize b.length + r.length := by
      rw [hs, List.length_append, varintSize]
    rw [if_neg (by omega), C.readString_cut old s _ r hb hs hshort, hlen, Nat.add_sub_cancel_left,
      List.prefix_iff_eq_take.mp hr, List.length_take, Nat.min_eq_left (Nat.le_of_lt hshort)]

theorem refuses_string (number : ℕ) {enter : M → M} {content : M → Bytes} {store : M → Bytes → M}
    {b p : Bytes} (h : number < 2 ^ 29)
    (hf : Selects fields (number * 8 + 2) (.string number enter content store))
    (hb : b.length < 2 ^ 31) (h0 : p ≠ []) (hp : p <+: Wire.writeString number b)
    (hne : p ≠ Wire.writeString number b) : Refuses R unread fields p := by
  rw [Wire.writeString, List.append_assoc] at hp hne
  refine C.refuses_of_cut (by omega) (by omega) hf (fun m s hq hqne => ?_) h0 hp hne
  simp only [Field.read, C.readString_prefix _ hb hq hqne]

/-- A message of two required fields that is cut off anywhere does not parse. -/
theorem parse_cut {T : MessageType M} {bs cs p : Bytes} {upd : M → M}
    (h : Reads R unread T.fields bs upd)
    (hbs : ∀ q, q ≠ [] → q <+: bs → q ≠ bs → Refuses R unread T.fields q)
    (hcs : ∀ q, q ≠ [] → q <+: cs → q ≠ cs → Refuses R unread T.fields q)
    (hnone : T.isInitialized T.empty = false) (hone : T.isInitialized (upd T.empty) = false)
    (hp : p <+: bs ++ cs) (hne : p ≠ bs ++ cs) : (T.parseFromArray R p).2 = false := by
  rcases prefix_append_cases hp with ⟨hpre, hneq⟩ | ⟨q, rfl, hq⟩
  · by_cases h0 : p = []
    · rw [h0, C.parse Reads.nil]
      exact hnone
    · exact C.parse_refused (hbs p h0 hpre hneq)
  · by_cases h0 : q = []
    · rw [h0, List.append_nil, C.parse h]
      exact hone
    · exact C.parse_refused (h.refuses (hcs q h0 hq fun heq => hne (by rw [heq])))

end Runtime.Conforms

end Message

namespace Wire

theorem readTag_encodeVarint {tag : ℕ} (h : tag < 2 ^ 32) (rest : Bytes) (e : Bool) :
    readTag ⟨encodeVarint 10 tag ++ rest, e⟩ = (tag, ⟨rest, false⟩) := by
  have hv := varint_encodeVarint (k := 9) (n := tag) (by omega) rest
  unfold readTag
  split
  next hnil =>
    have hnil : encodeVarint 10 tag ++ rest = [] := hnil
    simp [hnil, varint] at hv
  next =>
    have hmod : tag % 2 ^ 32 = tag := Nat.mod_eq_of_lt h
    simp only [hv, hmod]

theorem readTag_cut {tag : ℕ} {p : Bytes} (e : Bool) (h : p <+: encodeVarint 10 tag)
    (hne : p ≠ encodeVarint 10 tag) (h0 : p ≠ []) : readTag ⟨p, e⟩ = (0, ⟨p, false⟩) := by
  unfold readTag
  split
  next hnil => exact absurd hnil h0
  next => simp only [varint_cut h hne]

theorem readSigned_varint {n : ℕ} (h : n < 2 ^ 64) (rest : Bytes) (e : Bool) (width : ℕ) :
    readSigned width ⟨encodeVarint 10 n ++ rest, e⟩ =
      some ((n : ℤ).bmod (2 ^ width), ⟨rest, e⟩) := by
  have hlt : n < 128 ^ (9 + 1) := by omega
  simp only [readSigned, varint_encodeVarint hlt rest, Option.map_some]

theorem readSigned_cut {n : ℕ} {p : Bytes} (e : Bool) (width : ℕ) (h : p <+: encodeVarint 10 n)
    (hne : p ≠ encodeVarint 10 n) : readSigned width ⟨p, e⟩ = none := by
  simp [readSigned, varint_cut h hne]

/-- A length with some bytes behind it: the string, or those bytes if they are too few. -/
theorem readString_varint {n : ℕ} (h : n < 2 ^ 31) (old bs : Bytes) (e : Bool) :
    readString old ⟨encodeVarint 10 n ++ bs, e⟩ =
      if n ≤ bs.length then (bs.take n, some ⟨bs.drop n, e⟩) else (bs, none) := by
  have hlt : n < 128 ^ (9 + 1) := by omega
  have hmod : n % 2 ^ 32 = n := by omega
  simp only [readString, varint_encodeVarint hlt, hmod]
  rw [if_neg (by omega)]

/-- A string that was read in full is shorter than `2 ^ 31` bytes. -/
theorem readString_lt {old b : Bytes} {s u : Stream} (h : readString old s = (b, some u)) :
    b.length < 2 ^ 31 := by
  unfold readString at h
  split at h
  next => simp at h
  next v rest hv =>
    simp only at h
    split_ifs at h with hbig hfit
    · simp at h
    · obtain ⟨rfl, -⟩ := Prod.mk.inj h
      simp only [List.length_take]
      omega
    · simp at h

/-- The runtime over flat arrays is one that conforms. -/
theorem conforms : runtime.Conforms Stream.rest where
  int32 _ _ := rfl
  int64 _ _ := rfl
  string _ _ := rfl
  unread_ofArray _ := rfl
  readTag := by
    rintro ⟨bs, e⟩ tag rest h rfl
    exact ⟨_, readTag_encodeVarint h rest e, rfl⟩
  readTag_end := by
    rintro ⟨bs, e⟩ rfl
    exact ⟨_, rfl, rfl⟩
  readTag_cut := by
    rintro ⟨bs, e⟩ tag h0 h hne
    exact ⟨_, readTag_cut e h hne h0, rfl⟩
  readInt32 := by
    rintro ⟨bs, e⟩ n rest h rfl
    exact ⟨_, readSigned_varint h rest e 32, rfl⟩
  readInt32_cut := by
    rintro ⟨bs, e⟩ n h hne
    exact readSigned_cut e 32 h hne
  readInt64 := by
    rintro ⟨bs, e⟩ n rest h rfl
    exact ⟨_, readSigned_varint h rest e 64, rfl⟩
  readInt64_cut := by
    rintro ⟨bs, e⟩ n h hne
    exact readSigned_cut e 64 h hne
  readString := by
    rintro old ⟨bs, e⟩ b rest h rfl
    refine ⟨⟨rest, e⟩, (readString_varint h old _ e).trans ?_, rfl⟩
    rw [if_pos (by simp), List.take_left', List.drop_left'] <;> rfl
  readString_cutLength := by
    rintro old ⟨bs, e⟩ n h hne
    have hcut : varint 10 bs = none := varint_cut h hne
    show readString old ⟨bs, e⟩ = _
    simp only [readString, hcut]
  readString_cut := by
    rintro old ⟨bs, e⟩ n p h rfl hlt
    refine (readString_varint h old p e).trans ?_
    rw [if_neg (by omega)]
  readString_lt _ _ _ _ h := readString_lt h
  skipField_suffix := by
    rintro tag s t h
    obtain ⟨r, hr, rfl⟩ := Option.map_eq_some_iff.mp h
    exact (skip_suffix _ _ _ _).1 r hr

end Wire

end Protobuf
