import EglComet.Protobuf.WriteRead

/-!
Messages that are cut off. A parse that fails leaves the fields read so far in
the object. Of the field in which the input ends, a number leaves nothing, and a
string leaves what was there of its bytes.
-/
namespace Protobuf

open Wire

theorem Wire.encodeVarint_toNat {b : UInt8} (h : b.toNat < 128) :
    encodeVarint 10 b.toNat = [b] := by
  rw [encodeVarint, if_pos h, UInt8.ofNat_toNat]

section Keeps

variable {σ M α : Type} {R : Runtime σ} {unread : σ → Bytes} {fields : List (Field M)}
  {proj : M → α}

theorem Field.read_int32_keeps {number : ℕ} {set : M → ℤ → M}
    (hset : ∀ m x, proj (set m x) = proj m) (m : M) (s : σ) :
    proj ((Field.int32 number set).read R m s).1 = proj m := by
  cases hr : R.readInt32 s with
  | none => simp only [Field.read, hr]
  | some r => simp only [Field.read, hr, hset]

/-- What no read of a field changes, completed or not, no parse changes. -/
theorem mergePartial_keeps {P : M → Prop}
    (hread : ∀ f ∈ fields, ∀ m s, P m → P (f.read R m s).1) {m : M} (s : σ) (hm : P m) :
    P (mergePartial R fields m s).1 := by
  fun_induction mergePartial R fields m s with
  | case1 => exact hm
  | case2 m s tag t ht f hf m' u hr ih =>
    have hp := hread f (List.mem_of_find?_eq_some hf) m t hm
    rw [hr] at hp
    exact ih hp
  | case3 m s tag t ht f hf m' hr =>
    have hp := hread f (List.mem_of_find?_eq_some hf) m t hm
    rw [hr] at hp
    exact hp
  | case4 => exact hm
  | case5 m s tag t ht hf hg u hk ih => exact ih hm
  | case6 => exact hm

/-- These bytes, and every beginning of them at the end of the input, leave a part of the message as
it is. -/
structure Keeps (R : Runtime σ) (unread : σ → Bytes) (fields : List (Field M)) (proj : M → α)
    (bs : Bytes) : Prop where
  cut : ∀ p, p <+: bs → ∀ m s, unread s = p → proj (mergePartial R fields m s).1 = proj m
  whole : ∀ m s rest, unread s = bs ++ rest → ∃ m' t, unread t = rest ∧ proj m' = proj m ∧
    mergePartial R fields m s = mergePartial R fields m' t

theorem Keeps.append {bs cs : Bytes} (h : Keeps R unread fields proj bs)
    (h' : Keeps R unread fields proj cs) : Keeps R unread fields proj (bs ++ cs) where
  cut p hp m s hs := by
    rcases prefix_append_cases hp with ⟨hpre, -⟩ | ⟨q, rfl, hq⟩
    · exact h.cut p hpre m s hs
    · obtain ⟨m', t, ht, hm, heq⟩ := h.whole m s q hs
      rw [heq, h'.cut q hq m' t ht, hm]
  whole m s rest hs := by
    rw [List.append_assoc] at hs
    obtain ⟨m', t, ht, hm, heq⟩ := h.whole m s _ hs
    obtain ⟨m'', u, hu, hm', heq'⟩ := h'.whole m' t rest ht
    exact ⟨m'', u, hu, hm'.trans hm, heq.trans heq'⟩

namespace Runtime.Conforms

variable (C : R.Conforms unread)

include C

theorem merge_end (m : M) {s : σ} (h : unread s = []) : (mergePartial R fields m s).1 = m := by
  obtain ⟨t, ht, -⟩ := C.readTag_end s h
  rw [mergePartial_end ht]

theorem keeps_nil : Keeps R unread fields proj [] where
  cut p hp m s hs := by
    rw [List.prefix_nil.mp hp] at hs
    rw [C.merge_end m hs]
  whole m s rest hs := ⟨m, s, hs, rfl, rfl⟩

/-- A field that is cut off: the input ends inside its tag, or inside what the tag announces. -/
theorem merge_cut {tag : ℕ} {f : Field M} {bs p : Bytes} {m : M} {s : σ} (h0 : tag ≠ 0)
    (h : tag < 2 ^ 32) (hf : Selects fields tag f)
    (hcut : ∀ t, unread t <+: bs → unread t ≠ bs → (f.read R m t).2 = none)
    (hp : p <+: encodeVarint 10 tag ++ bs) (hne : p ≠ encodeVarint 10 tag ++ bs)
    (hs : unread s = p) :
    (p.length < varintSize tag ∧ (mergePartial R fields m s).1 = m) ∨
      ∃ t, p = encodeVarint 10 tag ++ unread t ∧ unread t <+: bs ∧ unread t ≠ bs ∧
        (mergePartial R fields m s).1 = (f.read R m t).1 := by
  rcases prefix_append_cases hp with ⟨hpre, hneq⟩ | ⟨q, rfl, hq⟩
  · refine Or.inl ⟨Nat.lt_of_le_of_ne hpre.length_le fun heq => hneq (hpre.eq_of_length heq), ?_⟩
    by_cases hnil : p = []
    · exact C.merge_end m (hs.trans hnil)
    · obtain ⟨t, ht, -⟩ := C.readTag_cut s tag (hs ▸ hnil) (hs ▸ hpre) (hs ▸ hneq)
      rw [mergePartial_end ht]
  · obtain ⟨t, ht, rfl⟩ := C.readTag s tag q h hs
    have hqne : unread t ≠ bs := fun heq => hne (by rw [heq])
    exact Or.inr ⟨t, rfl, hq, hqne, by rw [mergePartial_refused ht h0 hf (hcut t hq hqne)]⟩

/-- A field is kept out of a part of the message if its reads are, those that fail included. -/
theorem keeps_of_read {tag : ℕ} {f : Field M} {bs : Bytes} (h0 : tag ≠ 0) (h : tag < 2 ^ 32)
    (hf : Selects fields tag f) (hkeep : ∀ m s, proj (f.read R m s).1 = proj m)
    (hwhole : ∀ m s rest, unread s = bs ++ rest → ∃ t ∈ (f.read R m s).2, unread t = rest)
    (hcut : ∀ m s, unread s <+: bs → unread s ≠ bs → (f.read R m s).2 = none) :
    Keeps R unread fields proj (encodeVarint 10 tag ++ bs) := by
  have hread : ∀ m s rest, unread s = encodeVarint 10 tag ++ bs ++ rest → ∃ m' t,
      unread t = rest ∧ proj m' = proj m ∧
        mergePartial R fields m s = mergePartial R fields m' t := by
    intro m s rest hs
    rw [List.append_assoc] at hs
    obtain ⟨t, ht, hrest⟩ := C.readTag s tag _ h hs
    obtain ⟨u, hu, hurest⟩ := hwhole m t rest hrest
    exact ⟨_, u, hurest, hkeep m t, mergePartial_read ht h0 hf (Prod.ext rfl hu)⟩
  refine ⟨fun p hp m s hs => ?_, hread⟩
  by_cases hne : p = encodeVarint 10 tag ++ bs
  · rw [hne, ← List.append_nil (_ ++ bs)] at hs
    obtain ⟨m', t, ht, hm, heq⟩ := hread m s [] hs
    rw [heq, C.merge_end m' ht, hm]
  · rcases C.merge_cut h0 h hf (hcut m) hp hne hs with ⟨-, heq⟩ | ⟨t, -, -, -, heq⟩
    · rw [heq]
    · rw [heq, hkeep m t]

/-- A number that is cut off leaves nothing. -/
theorem merge_int32_cut {number : ℕ} {set : M → ℤ → M} {v : ℤ} {p : Bytes} {m : M} {s : σ}
    (h0 : number ≠ 0) (h : number < 2 ^ 29) (hf : Selects fields (number * 8) (.int32 number set))
    (hp : p <+: R.writeInt32 number v) (hne : p ≠ R.writeInt32 number v) (hs : unread s = p) :
    (mergePartial R fields m s).1 = m := by
  rw [C.int32] at hp hne
  have hcut : ∀ t, unread t <+: encodeVarint 10 (v % 2 ^ 64).toNat →
      unread t ≠ encodeVarint 10 (v % 2 ^ 64).toNat →
        (Field.int32 number set).read R m t = (m, none) := by
    intro t ht htne
    simp only [Field.read, C.readInt32_cut t _ ht htne]
  have hnone := fun t ht htne => congrArg Prod.snd (hcut t ht htne)
  rcases C.merge_cut (by omega) (by omega) hf hnone hp hne hs with ⟨-, heq⟩ | ⟨t, -, ht, htne, heq⟩
  · exact heq
  · rw [heq, hcut t ht htne]

theorem keeps_int32 {number : ℕ} {set : M → ℤ → M} (v : ℤ) (h0 : number ≠ 0)
    (h : number < 2 ^ 29) (hf : Selects fields (number * 8) (.int32 number set))
    (hset : ∀ m x, proj (set m x) = proj m) :
    Keeps R unread fields proj (R.writeInt32 number v) := by
  rw [C.int32]
  refine C.keeps_of_read (by omega) (by omega) hf (Field.read_int32_keeps hset)
    (fun m s rest hs => ?_) fun m s hp hne => ?_
  · obtain ⟨t, ht, hrest⟩ := C.readInt32 s _ rest (by omega) hs
    exact ⟨t, by simp only [Field.read, ht, Option.mem_def], hrest⟩
  · simp only [Field.read, C.readInt32_cut s _ hp hne]

theorem keeps_string {number : ℕ} {enter : M → M} {content : M → Bytes} {store : M → Bytes → M}
    {b : Bytes} (h : number < 2 ^ 29)
    (hf : Selects fields (number * 8 + 2) (.string number enter content store))
    (hb : b.length < 2 ^ 31) (hstore : ∀ m x, proj (store (enter m) x) = proj m) :
    Keeps R unread fields proj (R.writeString number b) := by
  rw [C.string, Wire.writeString, List.append_assoc]
  refine C.keeps_of_read (by omega) (by omega) hf (fun m s => hstore m _) (fun m s rest hs => ?_)
    fun m s hp hne => ?_
  · rw [List.append_assoc] at hs
    obtain ⟨t, ht, hrest⟩ := C.readString (content (enter m)) s b rest hb hs
    exact ⟨t, by simp only [Field.read, ht, Option.mem_def], hrest⟩
  · simp only [Field.read, C.readString_prefix _ hb hp hne]

/-- The bytes that were there of a string that is cut off behind its tag. -/
theorem merge_string_cut {number : ℕ} {enter : M → M} {content : M → Bytes} {store : M → Bytes → M}
    {b p : Bytes} {m : M} {s : σ} (h : number < 15)
    (hf : Selects fields (number * 8 + 2) (.string number enter content store))
    (hb : b.length < 2 ^ 31) (hempty : content (enter m) = []) (h0 : p ≠ [])
    (hp : p <+: R.writeString number b) (hne : p ≠ R.writeString number b) (hs : unread s = p) :
    (mergePartial R fields m s).1 =
      store (enter m) (b.take (p.length - ((R.writeString number b).length - b.length))) := by
  rw [C.length_string h]
  rw [C.string] at hp hne
  rw [Wire.writeString, List.append_assoc] at hp hne
  have hcut : ∀ t, unread t <+: encodeVarint 10 b.length ++ b →
      unread t ≠ encodeVarint 10 b.length ++ b →
        (Field.string number enter content store).read R m t =
          (store (enter m) (b.take ((unread t).length - varintSize b.length)), none) := by
    intro t ht htne
    simp only [Field.read, hempty, C.readString_prefix [] hb ht htne]
    split_ifs with hlow
    · rw [Nat.sub_eq_zero_of_le (Nat.le_of_lt hlow), List.take_zero]
    · rfl
  have hnone := fun t ht htne => congrArg Prod.snd (hcut t ht htne)
  have htag : varintSize (number * 8 + 2) = 1 := varintSize_low (by omega)
  rcases C.merge_cut (by omega) (by omega) hf hnone hp hne hs with
    ⟨hlt, -⟩ | ⟨t, rfl, ht, htne, heq⟩
  · exact absurd (List.eq_nil_of_length_eq_zero (by omega)) h0
  · have hlen : 1 + (unread t).length - (1 + varintSize b.length + b.length - b.length) =
        (unread t).length - varintSize b.length := by omega
    rw [heq, hcut t ht htne, List.length_append, ← varintSize, htag, hlen]

theorem readTag_cons {s : σ} {b : UInt8} {bs : Bytes} (hb : b.toNat < 128)
    (hs : unread s = b :: bs) : ∃ t, R.readTag s = (b.toNat, t) ∧ unread t = bs := by
  apply C.readTag s b.toNat bs (by omega)
  rw [hs, encodeVarint_toNat hb]
  rfl

/-- Over bytes below 128 a field that is read leaves an end of the input. -/
theorem read_suffix {f : Field M} {m m' : M} {s t : σ} (hlow : ∀ b ∈ unread s, b.toNat < 128)
    (hr : f.read R m s = (m', some t)) : unread t <:+ unread s := by
  cases hs : unread s with
  | nil =>
    -- nothing is read at the end of the input
    have hpre : unread s <+: encodeVarint 10 0 := hs ▸ List.nil_prefix
    have hne : unread s ≠ encodeVarint 10 0 := hs ▸ (by simp [encodeVarint])
    cases f with
    | int32 number set => simp [Field.read, C.readInt32_cut s 0 hpre hne] at hr
    | int64 number set => simp [Field.read, C.readInt64_cut s 0 hpre hne] at hr
    | string number enter content store =>
      simp [Field.read, C.readString_cutLength _ s 0 hpre hne] at hr
  | cons b bs =>
    have hb : b.toNat < 128 := hlow b (hs ▸ List.mem_cons_self)
    have hcons : unread s = encodeVarint 10 b.toNat ++ bs := by
      rw [hs, encodeVarint_toNat hb]
      rfl
    cases f with
    | int32 number set =>
      obtain ⟨u, hu, hrest⟩ := C.readInt32 s _ bs (by omega) hcons
      obtain rfl : u = t := by simpa [Field.read, hu] using congrArg Prod.snd hr
      exact hrest ▸ List.suffix_cons b bs
    | int64 number set =>
      obtain ⟨u, hu, hrest⟩ := C.readInt64 s _ bs (by omega) hcons
      obtain rfl : u = t := by simpa [Field.read, hu] using congrArg Prod.snd hr
      exact hrest ▸ List.suffix_cons b bs
    | string number enter content store =>
      rcases Nat.lt_or_ge bs.length b.toNat with hlt | hge
      · simp [Field.read, C.readString_cut _ s _ bs (by omega) hcons hlt] at hr
      · have hlen : (bs.take b.toNat).length = b.toNat := List.length_take_of_le hge
        obtain ⟨u, hu, hrest⟩ := C.readString (content (enter m)) s (bs.take b.toNat)
          (bs.drop b.toNat) (by omega) (by rw [hlen, List.take_append_drop, hcons])
        obtain rfl : u = t := by simpa [Field.read, hu] using congrArg Prod.snd hr
        exact hrest ▸ (List.drop_suffix _ bs).trans (List.suffix_cons b bs)

/-- Over bytes below 128 the tag of a turn is its first byte. -/
theorem readTag_absent {tag : ℕ} {s : σ} (hlow : ∀ b ∈ unread s, b.toNat < 128 ∧ b.toNat ≠ tag)
    (h0 : (R.readTag s).1 ≠ 0) :
    (R.readTag s).1 ≠ tag ∧ unread (R.readTag s).2 <:+ unread s := by
  cases hs : unread s with
  | nil =>
    obtain ⟨t, ht, -⟩ := C.readTag_end s hs
    simp [ht] at h0
  | cons b bs =>
    have hb := hlow b (hs ▸ List.mem_cons_self)
    obtain ⟨t, ht, hrest⟩ := C.readTag_cons hb.1 hs
    rw [ht]
    exact ⟨hb.2, hrest ▸ List.suffix_cons b bs⟩

/-- Over bytes below 128, only those fields are read whose tag is one of the bytes. -/
theorem merge_absent (tag : ℕ)
    (hproj : ∀ f ∈ fields, f.number * 8 + f.wireType ≠ tag → ∀ m s,
      proj (f.read R m s).1 = proj m) {m : M} {s : σ}
    (hlow : ∀ b ∈ unread s, b.toNat < 128 ∧ b.toNat ≠ tag) :
    proj (mergePartial R fields m s).1 = proj m := by
  fun_induction mergePartial R fields m s with
  | case1 => rfl
  | case2 m s _ _ ht f hf m' u hr ih =>
    obtain ⟨hne, hsuf⟩ := C.readTag_absent hlow ht
    have hsel : Selects fields (R.readTag s).1 f := hf
    have hkeep := hproj f hsel.mem (hsel.tag_eq.trans_ne hne) m (R.readTag s).2
    have hrest := C.read_suffix (fun b hb => (hlow b (hsuf.subset hb)).1) hr
    rw [hr] at hkeep
    rw [ih fun b hb => hlow b ((hrest.trans hsuf).subset hb)]
    exact hkeep
  | case3 m s _ _ ht f hf m' hr =>
    obtain ⟨hne, -⟩ := C.readTag_absent hlow ht
    have hsel : Selects fields (R.readTag s).1 f := hf
    have hkeep := hproj f hsel.mem (hsel.tag_eq.trans_ne hne) m (R.readTag s).2
    rw [hr] at hkeep
    exact hkeep
  | case4 => rfl
  | case5 m s _ _ ht hf hg u hk ih =>
    obtain ⟨-, hsuf⟩ := C.readTag_absent hlow ht
    exact ih fun b hb => hlow b (((C.skipField_suffix _ _ _ hk).trans hsuf).subset hb)
  | case6 => rfl

end Runtime.Conforms

end Keeps

end Protobuf
