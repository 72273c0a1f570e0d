import EglComet.AnalyseReq.Framing
import EglComet.Libevent.Evbuffer
import Mathlib.Data.List.TakeWhile

/-!
What the operations of `buffer.c` do to the bytes of a buffer. The chains of a
buffer are chains with data followed by vacant ones, and `last_with_datap` leads
to the last chain with data. Each operation keeps that form, never fails an
assertion on it, and acts on the bytes as the operation on one flat array would.
-/
namespace EglComet

open Protobuf

/-- A chain without data in a block that is not empty. -/
def Chain.Vacant (c : Chain) : Prop := c.off = 0 ∧ 0 < c.buffer.length

theorem vacant_chainNew (mem : ℕ → UInt8) (size : ℕ) : (chainNew mem size).Vacant := by
  have := le_toAlloc (size + 48) 1024 (by decide)
  refine ⟨rfl, ?_⟩
  show 0 < ((List.range (toAlloc (size + 48) 1024 - 48)).map mem).length
  rw [List.length_map, List.length_range]
  omega

theorem Chain.Vacant.space_rewind {c : Chain} (h : c.Vacant) : 0 < (c.rewind h.1).space := by
  rw [Window.space_rewind]
  exact h.2

theorem Chain.Vacant.rewind {c : Chain} (h : c.Vacant) : Chain.Vacant (c.rewind h.1) := h

namespace Evbuffer

@[simp] theorem bytesOf_nil : bytesOf [] = [] := rfl

@[simp] theorem bytesOf_cons (c : Chain) (cs : List Chain) :
    bytesOf (c :: cs) = c.data ++ bytesOf cs := rfl

@[simp] theorem bytesOf_append (cs ds : List Chain) :
    bytesOf (cs ++ ds) = bytesOf cs ++ bytesOf ds := by
  simp [bytesOf]

theorem bytesOf_vacant {cs : List Chain} (h : ∀ c ∈ cs, c.off = 0) : bytesOf cs = [] := by
  induction cs with
  | nil => rfl
  | cons c cs ih =>
    have hc : c.data = [] := (Window.data_eq_nil_iff c).mpr (h c List.mem_cons_self)
    rw [bytesOf_cons, hc, List.nil_append]
    exact ih fun d hd => h d (List.mem_cons_of_mem c hd)

theorem chainsAllEmpty_iff (cs : List Chain) :
    chainsAllEmpty cs = true ↔ ∀ c ∈ cs, c.off = 0 := by
  simp [chainsAllEmpty]

/-- The form of a buffer: `fs` are its chains with data and `es` its vacant ones. -/
structure Shape (b : Evbuffer) (fs es : List Chain) : Prop where
  chains : b.chains = fs ++ es
  full : ∀ c ∈ fs, c.off ≠ 0
  vacant : ∀ c ∈ es, c.Vacant
  last : b.lastWithDatap = fs.length - 1
  total : b.totalLen = (bytesOf fs).length

/-- A buffer as its operations leave it. -/
def Filled (b : Evbuffer) : Prop := ∃ fs es, b.Shape fs es

/-- A buffer without vacant chains, unless one is all it has. -/
def Tight (b : Evbuffer) : Prop := ∃ fs es, b.Shape fs es ∧ (es = [] ∨ fs = [] ∧ es.length ≤ 1)

theorem Tight.filled {b : Evbuffer} (h : b.Tight) : b.Filled := by
  obtain ⟨fs, es, hs, -⟩ := h
  exact ⟨fs, es, hs⟩

namespace Shape

variable {b : Evbuffer} {fs es : List Chain}

theorem contents (h : b.Shape fs es) : b.contents = bytesOf fs := by
  rw [Evbuffer.contents, h.chains, bytesOf_append, bytesOf_vacant fun c hc => (h.vacant c hc).1,
    List.append_nil]

theorem length_contents (h : b.Shape fs es) : b.contents.length = b.totalLen := by
  rw [h.contents, h.total]

theorem tight (h : b.Shape fs []) : b.Tight := ⟨fs, [], h, Or.inl rfl⟩

theorem tight_single {c : Chain} (h : b.Shape [] [c]) : b.Tight :=
  ⟨[], [c], h, Or.inr ⟨rfl, Nat.le_refl _⟩⟩

end Shape

theorem Filled.length_contents {b : Evbuffer} (h : b.Filled) : b.contents.length = b.totalLen := by
  obtain ⟨fs, es, hs⟩ := h
  exact hs.length_contents

/-- The buffer that `evbuffer_new` returns. -/
theorem shape_empty : ({} : Evbuffer).Shape [] [] where
  chains := rfl
  full := by simp
  vacant := by simp
  last := rfl
  total := rfl

theorem bytesOf_ne_nil {fs : List Chain} (h : ∀ c ∈ fs, c.off ≠ 0) (hne : fs ≠ []) :
    bytesOf fs ≠ [] := by
  cases fs with
  | nil => exact absurd rfl hne
  | cons c cs =>
    have hc : c.data ≠ [] := (Window.data_eq_nil_iff c).not.mpr (h c List.mem_cons_self)
    simp [hc]

/-- A buffer with bytes in it has no vacant chain if it is tight. -/
theorem Tight.shape_of_ne {b : Evbuffer} (h : b.Tight) (hne : b.totalLen ≠ 0) :
    ∃ fs, b.Shape fs [] ∧ fs ≠ [] := by
  obtain ⟨fs, es, hs, rfl | ⟨rfl, -⟩⟩ := h
  · refine ⟨fs, hs, ?_⟩
    rintro rfl
    exact hne hs.total
  · exact absurd hs.total hne

/-- `b'` has the vacant chains of `b`, or none. -/
def KeepsVacant (b b' : Evbuffer) : Prop :=
  ∀ fs es, b.Shape fs es → ∃ fs' es', b'.Shape fs' es' ∧
    (es' = [] ∨ es' = es ∧ (fs' = [] ↔ fs = []))

theorem Filled.of_keepsVacant {b b' : Evbuffer} (h : b.Filled) (hk : KeepsVacant b b') :
    b'.Filled := by
  obtain ⟨fs, es, hs⟩ := h
  obtain ⟨fs', es', hs', -⟩ := hk fs es hs
  exact ⟨fs', es', hs'⟩

theorem Tight.of_keepsVacant {b b' : Evbuffer} (h : b.Tight) (hk : KeepsVacant b b') :
    b'.Tight := by
  obtain ⟨fs, es, hs, he⟩ := h
  obtain ⟨fs', es', hs', rfl | ⟨rfl, hnil⟩⟩ := hk fs es hs
  · exact hs'.tight
  · exact ⟨fs', es', hs', he.imp_right fun h => ⟨hnil.mpr h.1, h.2⟩⟩

section Drain

/-- Draining less than all bytes stops at a chain with data. -/
theorem drainChains_full {fs : List Chain} (hf : ∀ c ∈ fs, c.off ≠ 0) (es : List Chain) {n : ℕ}
    (hn : n < (bytesOf fs).length) :
    ∃ fs', drainChains (fs.length - 1) n (fs ++ es) = (fs'.length - 1, fs' ++ es) ∧ fs' ≠ [] ∧
      (∀ c ∈ fs', c.off ≠ 0) ∧ bytesOf fs' = (bytesOf fs).drop n := by
  induction fs generalizing n with
  | nil => simp at hn
  | cons c cs ih =>
    have hcs : ∀ d ∈ cs, d.off ≠ 0 := fun d hd => hf d (List.mem_cons_of_mem c hd)
    have hlen := Window.length_data c
    rw [bytesOf_cons, List.length_append, hlen] at hn
    rw [List.cons_append, drainChains, bytesOf_cons]
    split_ifs with h
    · refine ⟨c.advance n (Nat.le_of_lt h) :: cs, rfl, List.cons_ne_nil _ _, ?_, ?_⟩
      · intro d hd
        rcases List.mem_cons.mp hd with rfl | hd
        · rw [Window.off_advance]
          omega
        · exact hcs d hd
      · rw [bytesOf_cons, Window.data_advance, List.drop_append_of_le_length (by omega)]
    · obtain ⟨fs', heq, hne, hfull, hbytes⟩ := ih hcs (n := n - c.off) (by omega)
      refine ⟨fs', heq, hne, hfull, ?_⟩
      rw [hbytes, List.drop_append, hlen, List.drop_of_length_le (by omega : c.data.length ≤ n),
        List.nil_append]

/-- `evbuffer_drain` drops bytes from the front. -/
theorem drain_keepsVacant (b : Evbuffer) (n : ℕ) : KeepsVacant b (b.drain n) := by
  intro fs es h
  unfold drain
  split_ifs with h0 hall
  · exact ⟨fs, es, h, Or.inr ⟨rfl, Iff.rfl⟩⟩
  · exact ⟨[], [], shape_empty, Or.inl rfl⟩
  · rw [h.total] at hall
    obtain ⟨fs', heq, hne, hfull, hbytes⟩ := drainChains_full h.full es (Nat.lt_of_not_le hall)
    have hfs : fs ≠ [] := by
      rintro rfl
      simp at hall
    rw [h.chains, h.last, heq]
    refine ⟨fs', es, ⟨rfl, hfull, h.vacant, rfl, ?_⟩, Or.inr ⟨rfl, iff_of_false hne hfs⟩⟩
    rw [hbytes, List.length_drop, h.total]

theorem Filled.contents_drain {b : Evbuffer} (h : b.Filled) (n : ℕ) :
    (b.drain n).contents = b.contents.drop n := by
  obtain ⟨fs, es, hs⟩ := h
  unfold drain
  split_ifs with h0 hall
  · have hnil : b.contents = [] := by
      rw [← List.length_eq_zero_iff, hs.length_contents, h0]
    rw [hnil, List.drop_nil]
  · rw [List.drop_of_length_le (by rw [hs.length_contents]; exact hall)]
    rfl
  · rw [hs.total] at hall
    obtain ⟨fs', heq, -, -, hbytes⟩ := drainChains_full hs.full es (Nat.lt_of_not_le hall)
    rw [hs.contents, ← hbytes, hs.chains, hs.last, heq, contents, bytesOf_append,
      bytesOf_vacant fun c hc => (hs.vacant c hc).1, List.append_nil]

end Drain

section Copy

theorem copyChains_eq (n : ℕ) (cs : List Chain) : copyChains n cs = (bytesOf cs).take n := by
  induction cs generalizing n with
  | nil => simp [copyChains]
  | cons c cs ih =>
    have hlen := Window.length_data c
    rw [copyChains, bytesOf_cons]
    split_ifs with h0 h
    · rw [h0, List.take_zero]
    · rw [ih, List.take_append, hlen, List.take_of_length_le (by omega : c.data.length ≤ n)]
    · rw [List.take_append_of_le_length (by omega)]

theorem Filled.copyout {b : Evbuffer} (h : b.Filled) (n : ℕ) :
    b.copyout n = b.contents.take n := by
  rw [Evbuffer.copyout, copyChains_eq, ← h.length_contents, ← contents, ← List.take_eq_take_min]

/-- `evbuffer_remove` copies the first bytes out and drops them. -/
theorem Filled.remove {b : Evbuffer} (h : b.Filled) (n : ℕ) :
    (b.remove n).1 = b.contents.take n ∧ (b.remove n).2.contents = b.contents.drop n ∧
      KeepsVacant b (b.remove n).2 := by
  have hmin : b.contents.drop (min n b.totalLen) = b.contents.drop n := by
    rw [← h.length_contents]
    rcases Nat.le_total n b.contents.length with hle | hle
    · rw [Nat.min_eq_left hle]
    · rw [Nat.min_eq_right hle, List.drop_length, List.drop_of_length_le hle]
  have hbuf : (b.remove n).2 = if min n b.totalLen > 0 then b.drain (min n b.totalLen) else b := rfl
  refine ⟨h.copyout n, ?_, ?_⟩
  · rw [← hmin, hbuf]
    split_ifs with hpos
    · exact h.contents_drain _
    · rw [Nat.eq_zero_of_not_pos hpos, List.drop_zero]
  · rw [hbuf]
    split_ifs with hpos
    · exact drain_keepsVacant b _
    · exact fun fs es hs => ⟨fs, es, hs, Or.inr ⟨rfl, Iff.rfl⟩⟩

end Copy

section Pullup

theorem bytes_pullChains (k i size : ℕ) (cs : List Chain) :
    (pullChains k i size cs).bytes = (bytesOf cs).take size := by
  induction cs generalizing i size with
  | nil => simp [pullChains]
  | cons c cs ih =>
    have hlen := Window.length_data c
    rw [pullChains, bytesOf_cons]
    split_ifs with h
    · rw [List.take_append_of_le_length (by omega)]
    · simp only [ih]
      rw [List.take_append, hlen, List.take_of_length_le (by omega : c.data.length ≤ size)]

/-- The chain at `last_with_datap` was freed if it is one of those the loop came past, and the chain
with that field if it stands right before one of the chains left. -/
theorem removed_pullChains (k i size : ℕ) (cs : List Chain) :
    let r := pullChains k i size cs
    r.removedLastWithData = decide (i ≤ k ∧ k < i + r.removed) ∧
      r.removedLastWithDatap = decide (i < k ∧ k ≤ i + r.removed) := by
  induction cs generalizing i size with
  | nil =>
    exact ⟨(decide_eq_false (by simp [pullChains])).symm,
      (decide_eq_false (by simp [pullChains])).symm⟩
  | cons c cs ih =>
    rw [pullChains]
    split_ifs with h
    · exact ⟨(decide_eq_false (by dsimp only; omega)).symm,
        (decide_eq_false (by dsimp only; omega)).symm⟩
    · obtain ⟨h1, h2⟩ := ih (i + 1) (size - c.off)
      simp only [h1, h2, ← Bool.decide_or, decide_eq_decide]
      omega

/-- Vacant chains behind the last byte that is pulled up are freed. -/
theorem rest_pullChains_vacant {es : List Chain} (he : ∀ c ∈ es, c.off = 0) (k i : ℕ) :
    (pullChains k i 0 es).rest = [] := by
  induction es generalizing i with
  | nil => rfl
  | cons e es ih =>
    have hoff : ¬ 0 < e.off := by
      rw [he e List.mem_cons_self]
      exact Nat.lt_irrefl 0
    rw [pullChains, dif_neg hoff, Nat.zero_sub]
    exact ih (fun c hc => he c (List.mem_cons_of_mem e hc)) (i + 1)

/-- The chains that are left: those with data that were not pulled up, and the vacant chains unless
everything was pulled up. -/
theorem rest_pullChains {fs : List Chain} (hf : ∀ c ∈ fs, c.off ≠ 0) {es : List Chain}
    (he : ∀ c ∈ es, c.off = 0) (k i : ℕ) {size : ℕ} (hsize : size ≤ (bytesOf fs).length) :
    ∃ fs' es', (pullChains k i size (fs ++ es)).rest = fs' ++ es' ∧ (∀ c ∈ fs', c.off ≠ 0) ∧
      bytesOf fs' = (bytesOf fs).drop size ∧
      ((fs' = [] ∧ es' = [] ∧ fs.length ≤ (pullChains k i size (fs ++ es)).removed) ∨
        fs' ≠ [] ∧ es' = es ∧
          (pullChains k i size (fs ++ es)).removed + fs'.length = fs.length) := by
  induction fs generalizing i size with
  | nil =>
    obtain rfl : size = 0 := by simpa using hsize
    exact ⟨[], [], rest_pullChains_vacant he k i, hf, rfl, Or.inl ⟨rfl, rfl, Nat.zero_le _⟩⟩
  | cons c cs ih =>
    have hcs : ∀ d ∈ cs, d.off ≠ 0 := fun d hd => hf d (List.mem_cons_of_mem c hd)
    have hlen := Window.length_data c
    rw [bytesOf_cons, List.length_append, hlen] at hsize
    rw [List.cons_append, pullChains, bytesOf_cons]
    split_ifs with h
    · refine ⟨c.advance size (Nat.le_of_lt h) :: cs, es, rfl, ?_, ?_,
        Or.inr ⟨List.cons_ne_nil _ _, rfl, Nat.zero_add _⟩⟩
      · intro d hd
        rcases List.mem_cons.mp hd with rfl | hd
        · rw [Window.off_advance]
          omega
        · exact hcs d hd
      · rw [bytesOf_cons, Window.data_advance, List.drop_append_of_le_length (by omega)]
    · obtain ⟨fs', es', hrest, hfull, hbytes, hcase⟩ :=
        ih hcs (i + 1) (by omega : size - c.off ≤ (bytesOf cs).length)
      refine ⟨fs', es', hrest, hfull, ?_, ?_⟩
      · rw [hbytes, List.drop_append, hlen,
          List.drop_of_length_le (by omega : c.data.length ≤ size), List.nil_append]
      · simp only [List.length_cons]
        rcases hcase with ⟨h1, h2, h3⟩ | ⟨h1, h2, h3⟩
        · exact Or.inl ⟨h1, h2, by omega⟩
        · exact Or.inr ⟨h1, h2, by omega⟩

/-- The end of `evbuffer_pullup` when the chains `gs` behind the first `i` ones were copied from:
the new first chain is followed by what is left, and `last_with_datap` leads to the last chain with
data. -/
theorem Shape.relink {b : Evbuffer} {es : List Chain} (fs gs : List Chain) {i : ℕ} (size : ℕ)
    (tmp : Chain) (h : b.Shape (fs ++ gs) es) (hi : fs.length = i) (hgs : gs ≠ [])
    (hsize : size ≤ (bytesOf gs).length)
    (hrem : i = 0 → 0 < (pullChains b.lastWithDatap i size (gs ++ es)).removed)
    (htmp : tmp.data = bytesOf fs ++ (bytesOf gs).take size) (hoff : tmp.off ≠ 0) :
    ∃ fs' es', (b.relink tmp i (pullChains b.lastWithDatap i size (gs ++ es))).Shape
      (tmp :: fs') es' ∧ bytesOf (tmp :: fs') = b.contents ∧ (es' = [] ∨ es' = es) := by
  have hgsfull : ∀ c ∈ gs, c.off ≠ 0 := fun c hc => h.full c (List.mem_append_right fs hc)
  have hlast : b.lastWithDatap = i + gs.length - 1 := by rw [h.last, List.length_append, hi]
  have hpos := List.length_pos_iff.mpr hgs
  obtain ⟨hr1, hr2⟩ := removed_pullChains b.lastWithDatap i size (gs ++ es)
  obtain ⟨fs', es', hrest, hfull, hbytes, hcase⟩ :=
    rest_pullChains hgsfull (fun c hc => (h.vacant c hc).1) b.lastWithDatap i hsize
  generalize pullChains b.lastWithDatap i size (gs ++ es) = r at hr1 hr2 hrest hcase hrem ⊢
  have hall : bytesOf (tmp :: fs') = b.contents := by
    rw [bytesOf_cons, htmp, hbytes, List.append_assoc, List.take_append_drop, h.contents,
      bytesOf_append]
  have hfull' : ∀ c ∈ tmp :: fs', c.off ≠ 0 := by
    intro c hc
    rcases List.mem_cons.mp hc with rfl | hc
    · exact hoff
    · exact hfull c hc
  have htotal : b.totalLen = (bytesOf (tmp :: fs')).length := by rw [hall, h.length_contents]
  refine ⟨fs', es', ⟨by rw [Evbuffer.relink, hrest]; rfl, hfull', ?_, ?_, htotal⟩, hall, ?_⟩
  · rcases hcase with ⟨-, rfl, -⟩ | ⟨-, rfl, -⟩
    · simp
    · exact h.vacant
  · rcases hcase with ⟨rfl, -, hle⟩ | ⟨hne, -, heq⟩
    · -- everything was pulled up, the chain at `last_with_datap` too
      have hgone : r.removedLastWithData = true := by
        rw [hr1, decide_eq_true_eq]
        omega
      rw [Evbuffer.relink, hgone]
      rfl
    · have hpos' := List.length_pos_iff.mpr hne
      have hkept : r.removedLastWithData = false := by
        rw [hr1, decide_eq_false_iff_not]
        omega
      have hhead : r.rest.head?.any (fun c => decide (c.off ≠ 0)) = true := by
        obtain ⟨c, cs, rfl⟩ := List.exists_cons_of_ne_nil hne
        rw [hrest]
        simpa using hfull c List.mem_cons_self
      show (if r.removedLastWithData then 0 else _) = fs'.length
      rw [hkept, hr2, hhead]
      simp only [Bool.false_eq_true, ↓reduceIte, decide_eq_true_eq]
      split_ifs with h1 h2
      · omega
      · omega
      · omega
  · rcases hcase with ⟨-, hes, -⟩ | ⟨-, hes, -⟩
    · exact Or.inl hes
    · exact Or.inr hes

theorem KeepsVacant.refl (b : Evbuffer) : KeepsVacant b b :=
  fun fs es hs => ⟨fs, es, hs, Or.inr ⟨rfl, Iff.rfl⟩⟩

theorem Shape.pullupFrom {b : Evbuffer} {c : Chain} {cs es : List Chain}
    (h : b.Shape (c :: cs) es) (mem : ℕ → UInt8) {n : ℕ} (hn : n ≤ (bytesOf (c :: cs)).length) :
    ∃ tmp b' fs es', b.pullupFrom (some mem) n c (cs ++ es) = (some tmp, b') ∧
      b'.Shape (tmp :: fs) es' ∧ bytesOf (tmp :: fs) = b.contents ∧ (es' = [] ∨ es' = es) ∧
      n ≤ tmp.off := by
  have hlen := Window.length_data c
  rw [bytesOf_cons, List.length_append, hlen] at hn
  have hoff : c.off ≠ 0 := h.full c List.mem_cons_self
  unfold Evbuffer.pullupFrom
  split_ifs with hrow hroom
  · exact ⟨c, b, cs, es, rfl, h, h.contents.symm, Or.inr rfl, hrow⟩
  · have hcs : cs ≠ [] := by
      rintro rfl
      simp at hn
      omega
    have hpull := bytes_pullChains b.lastWithDatap 1 (n - c.off) (cs ++ es)
    rw [bytesOf_append, List.take_append_of_le_length (by omega)] at hpull
    have hbytes : ((bytesOf cs).take (n - c.off)).length = n - c.off := by
      rw [List.length_take]
      omega
    obtain ⟨fs', es', hs', hall, hes⟩ := Shape.relink [c] cs (n - c.off)
      (c.append _ (length_bytes_le_space hroom)) h rfl hcs (by omega)
      (fun h => absurd h Nat.one_ne_zero) (by rw [Window.data_append, hpull]; simp)
      (by rw [Window.off_append]; omega)
    refine ⟨_, _, fs', es', rfl, hs', hall, hes, ?_⟩
    rw [Window.off_append, hpull, hbytes]
    omega
  · have hpull := bytes_pullChains b.lastWithDatap 0 n (c :: cs ++ es)
    have hle : n ≤ (bytesOf (c :: cs)).length := by simpa using hn
    rw [bytesOf_append, List.take_append_of_le_length hle] at hpull
    have hbytes : ((bytesOf (c :: cs)).take n).length = n := by
      rw [List.length_take]
      omega
    have hrem : 0 < (pullChains b.lastWithDatap 0 n (c :: cs ++ es)).removed := by
      rw [List.cons_append, pullChains, dif_neg (by omega)]
      exact Nat.succ_pos _
    obtain ⟨fs', es', hs', hall, hes⟩ := Shape.relink [] (c :: cs) n
      ((chainNew mem n).append _ (Nat.le_trans (length_bytes_pullChains _ _ _ _)
        (le_space_chainNew mem n))) h rfl (List.cons_ne_nil c cs) hle (fun _ => hrem)
      (by rw [Window.data_append, hpull]; simp [chainNew])
      (by rw [Window.off_append, hpull, hbytes]; omega)
    refine ⟨_, _, fs', es', rfl, hs', hall, hes, ?_⟩
    rw [Window.off_append, ← List.cons_append, hpull, hbytes]
    exact Nat.le_add_left n _

theorem Filled.pullup_none {b : Evbuffer} (h : b.Filled) (mem : Malloc) {size : ℤ}
    (hr : evbufferPullup b.contents size = none) : b.pullup mem size = (none, b) := by
  unfold evbufferPullup at hr
  rw [h.length_contents] at hr
  simp only [ite_eq_left_iff, reduceCtorEq, imp_false, not_not] at hr
  exact if_pos hr

theorem Shape.pullup_some {b : Evbuffer} {fs es : List Chain} (h : b.Shape fs es)
    (mem : ℕ → UInt8) {size : ℤ} {region : Bytes}
    (hr : evbufferPullup b.contents size = some region) :
    ∃ tmp b' fs' es', b.pullup (some mem) size = (some tmp, b') ∧ b'.Shape (tmp :: fs') es' ∧
      b'.contents = b.contents ∧ (es' = [] ∨ es' = es) ∧ region <+: tmp.data ∧ fs ≠ [] := by
  unfold evbufferPullup at hr
  rw [h.length_contents] at hr
  simp only [Option.ite_none_left_eq_some, Option.some.injEq] at hr
  obtain ⟨hnull, rfl⟩ := hr
  have hle : (if size < 0 then (b.totalLen : ℤ) else size).toNat ≤ (bytesOf fs).length := by
    rw [← h.total]
    omega
  unfold pullup
  rw [if_neg hnull]
  cases fs with
  | nil =>
    have htotal : b.totalLen = 0 := h.total
    split_ifs at hnull <;> omega
  | cons c cs =>
    obtain ⟨tmp, b', fs', es', heq, hs', hall, hes, hoff⟩ := h.pullupFrom mem hle
    refine ⟨tmp, b', fs', es', ?_, hs', hs'.contents.trans hall, hes, ?_, List.cons_ne_nil c cs⟩
    · rw [h.chains]
      exact heq
    · rw [← hall, bytesOf_cons, List.take_append_of_le_length (by rwa [Window.length_data])]
      exact List.take_prefix _ _

/-- `evbuffer_pullup` changes no byte. It returns null when the flat call does, and otherwise the
region of the flat call stands in a row at the pointer it returns. -/
theorem Filled.pullup {b : Evbuffer} (h : b.Filled) (mem : ℕ → UInt8) (size : ℤ) :
    (b.pullup (some mem) size).2.contents = b.contents ∧
      KeepsVacant b (b.pullup (some mem) size).2 ∧
      (evbufferPullup b.contents size = none ∧ (b.pullup (some mem) size).1 = none ∨
        ∃ region c, evbufferPullup b.contents size = some region ∧
          (b.pullup (some mem) size).1 = some c ∧ region <+: c.data) := by
  cases hr : evbufferPullup b.contents size with
  | none =>
    rw [h.pullup_none _ hr]
    exact ⟨rfl, .refl b, Or.inl ⟨rfl, rfl⟩⟩
  | some region =>
    obtain ⟨fs, es, hs⟩ := h
    obtain ⟨tmp, b', -, -, heq, -, hall, -, hpre, -⟩ := hs.pullup_some mem hr
    refine ⟨by rw [heq, hall], ?_, Or.inr ⟨region, tmp, rfl, by rw [heq], hpre⟩⟩
    intro gs ds hgs
    obtain ⟨_, _, gs', ds', heq', hgs', -, hds, -, hne⟩ := hgs.pullup_some mem hr
    rw [heq']
    exact ⟨_, ds', hgs', hds.imp_right fun h => ⟨h, iff_of_false (List.cons_ne_nil _ _) hne⟩⟩

end Pullup

section Add

/-- The walk over chains that starts at the last chain with data. -/
theorem Shape.victim {b : Evbuffer} {fs es : List Chain} (h : b.Shape fs es) :
    b.victim = fs.length := by
  have hdrop : b.chains.drop b.lastWithDatap = fs.drop (fs.length - 1) ++ es := by
    rw [h.chains, h.last, List.drop_append_of_le_length (Nat.sub_le _ _)]
  have hwalk : ((fs.drop (fs.length - 1) ++ es).takeWhile fun c => decide (c.off ≠ 0)) =
      fs.drop (fs.length - 1) := by
    rw [List.takeWhile_append_of_pos]
    · cases es with
      | nil => simp
      | cons e es => simp [(h.vacant e List.mem_cons_self).1]
    · intro c hc
      simpa using h.full c (List.mem_of_mem_drop hc)
  rw [Evbuffer.victim, hdrop, hwalk, h.last, List.length_drop]
  omega

/-- A chain with data goes behind the others. -/
theorem Shape.chainInsert {b : Evbuffer} {fs : List Chain} (h : b.Shape fs []) {c : Chain}
    (hc : c.off ≠ 0) : ∃ b', b.chainInsert c = some b' ∧ b'.Shape (fs ++ [c]) [] := by
  have hchains : b.chains = fs := by rw [h.chains, List.append_nil]
  have hfull : ∀ d ∈ fs ++ [c], d.off ≠ 0 := by
    intro d hd
    rcases List.mem_append.mp hd with hd | hd
    · exact h.full d hd
    · rwa [List.mem_singleton.mp hd]
  have htotal : b.totalLen + c.off = (bytesOf (fs ++ [c])).length := by
    simp [h.total]
  have hlast : (fs ++ [c]).length - 1 = fs.length := by simp
  unfold Evbuffer.chainInsert
  rw [h.victim, hchains, h.last]
  rcases Nat.eq_zero_or_pos fs.length with hnil | hpos
  · obtain rfl := List.length_eq_zero_iff.mp hnil
    exact ⟨_, rfl, rfl, hfull, by simp, rfl, htotal⟩
  · rw [if_neg (by omega), if_pos rfl]
    exact ⟨_, rfl, by rw [List.append_nil], hfull, by simp, by rw [hlast, if_pos hc], htotal⟩

/-- A chain with data takes the place of a vacant one. -/
theorem Shape.chainInsert_vacant {b : Evbuffer} {e c : Chain} (h : b.Shape [] [e])
    (hc : c.off ≠ 0) : ∃ b', b.chainInsert c = some b' ∧ b'.Shape [c] [] := by
  have hchains : b.chains = [e] := h.chains
  have hempty : chainsAllEmpty [e] = true :=
    (chainsAllEmpty_iff [e]).mpr fun d hd => (h.vacant d hd).1
  have htotal : b.totalLen = 0 := h.total
  refine ⟨{ chains := [c], lastWithDatap := 0, totalLen := b.totalLen + c.off }, ?_, rfl,
    by simpa using hc, by simp, rfl, by simp [htotal]⟩
  unfold Evbuffer.chainInsert
  rw [h.victim, h.last, hchains]
  simp [hempty]

/-- A buffer whose last chain is the only one that may be vacant, and only if it is alone. -/
theorem tight_of_last {b : Evbuffer} {front : List Chain} {c : Chain}
    (hchains : b.chains = front ++ [c]) (hfront : ∀ d ∈ front, d.off ≠ 0)
    (hlast : b.lastWithDatap = front.length) (hc : c.off ≠ 0 ∨ front = [] ∧ 0 < c.buffer.length)
    (htotal : b.totalLen = (bytesOf front).length + c.off) : b.Tight := by
  by_cases h0 : c.off = 0
  · obtain ⟨rfl, hbuf⟩ := hc.resolve_left (not_not_intro h0)
    refine Shape.tight_single (c := c) ⟨hchains, by simp, ?_, hlast, by rw [htotal, h0]; rfl⟩
    intro d hd
    rw [List.mem_singleton.mp hd]
    exact ⟨h0, hbuf⟩
  · have hshape : b.Shape (front ++ [c]) [] := by
      refine ⟨by rw [hchains, List.append_nil], ?_, by simp, by simp [hlast], by simp [htotal]⟩
      intro d hd
      rcases List.mem_append.mp hd with hd | hd
      · exact hfront d hd
      · rwa [List.mem_singleton.mp hd]
    exact hshape.tight

theorem data_spillChain (mem : ℕ → UInt8) (c : Chain) (data : Bytes) :
    (spillChain mem c data).data = data.drop c.space := by
  simp [spillChain, chainNew]

/-- `evbuffer_add` from the last chain on. -/
theorem addTo_tight {b : Evbuffer} {front : List Chain} {c : Chain}
    (hchains : b.chains = front ++ [c]) (hfront : ∀ d ∈ front, d.off ≠ 0)
    (hlast : b.lastWithDatap = front.length) (hc : c.off ≠ 0 ∨ front = [] ∧ 0 < c.buffer.length)
    (htotal : b.totalLen = (bytesOf front).length + c.off) (mem : ℕ → UInt8) (data : Bytes) :
    ∃ b', b.addTo (some mem) front c data = some (true, b') ∧ b'.Tight ∧
      b'.contents = b.contents ++ data := by
  have hcontents : b.contents = bytesOf front ++ c.data := by
    rw [contents, hchains]
    simp
  unfold addTo
  by_cases hfit : data.length ≤ c.space
  · rw [dif_pos hfit]
    refine ⟨_, rfl, tight_of_last rfl hfront hlast ?_ ?_, ?_⟩
    · rw [Window.off_append, Window.length_buffer_append]
      exact hc.imp_left (by omega)
    · rw [Window.off_append, ← Nat.add_assoc, ← htotal]
    · rw [hcontents]
      simp [contents]
  rw [dif_neg hfit]
  by_cases hmove : c.shouldRealign data.length = true
  · rw [dif_pos hmove]
    refine ⟨_, rfl, tight_of_last rfl hfront hlast ?_ ?_, ?_⟩
    · rw [Window.off_append, Window.length_buffer_append, Window.length_buffer_align,
        Window.off_align]
      exact hc.imp_left (by omega)
    · rw [Window.off_append, Window.off_align, ← Nat.add_assoc, ← htotal]
    · rw [hcontents]
      simp [contents]
  rw [dif_neg hmove]
  -- a new chain takes what does not fit into the last one
  have hspill := data_spillChain mem c data
  have hoff : (spillChain mem c data).off = data.length - c.space := by
    rw [← Window.length_data, hspill, List.length_drop]
  have htake : (data.take c.space).length = c.space := by
    rw [List.length_take]
    omega
  have hinsert : ∃ b', chainInsert { b with
      chains := front ++ [c.append (data.take c.space) (List.length_take_le _ _)]
      totalLen := b.totalLen + c.space } (spillChain mem c data) = some b' ∧ b'.Tight ∧
      b'.contents = b.contents ++ data := by
    by_cases hempty : c.off + c.space = 0
    · -- the last chain is alone and has no space, and is replaced
      obtain ⟨rfl, hbuf⟩ := hc.resolve_left (by omega)
      have hvacant : Chain.Vacant (c.append (data.take c.space) (List.length_take_le _ _)) := by
        refine ⟨?_, by rw [Window.length_buffer_append]; exact hbuf⟩
        rw [Window.off_append, htake]
        exact hempty
      obtain ⟨b', heq, hs'⟩ := Shape.chainInsert_vacant (b := { b with
          chains := [c.append (data.take c.space) (List.length_take_le _ _)]
          totalLen := b.totalLen + c.space }) (c := spillChain mem c data)
        ⟨rfl, hfront, fun d hd => List.mem_singleton.mp hd ▸ hvacant, hlast,
          by simp [htotal]; omega⟩ (by omega)
      have hnil : c.data = [] ∧ c.space = 0 := ⟨(Window.data_eq_nil_iff c).mpr (by omega), by omega⟩
      refine ⟨b', heq, hs'.tight, ?_⟩
      rw [hs'.contents, hcontents]
      simp [hspill, hnil]
    · have hfull : ∀ d ∈ front ++ [c.append (data.take c.space) (List.length_take_le _ _)],
          d.off ≠ 0 := by
        intro d hd
        rcases List.mem_append.mp hd with hd | hd
        · exact hfront d hd
        · rw [List.mem_singleton.mp hd, Window.off_append, htake]
          exact hempty
      obtain ⟨b', heq, hs'⟩ := Shape.chainInsert (b := { b with
          chains := front ++ [c.append (data.take c.space) (List.length_take_le _ _)]
          totalLen := b.totalLen + c.space }) (c := spillChain mem c data)
        ⟨by rw [List.append_nil], hfull, by simp, by simp [hlast],
          by simp [htotal, htake, Nat.add_assoc]⟩ (by omega)
      refine ⟨b', heq, hs'.tight, ?_⟩
      rw [hs'.contents, hcontents]
      simp [hspill]
  obtain ⟨b', heq, htight, hbytes⟩ := hinsert
  exact ⟨b', by simp only [heq, Option.map_some], htight, hbytes⟩

/-- `evbuffer_add` appends the data. -/
theorem Tight.add {b : Evbuffer} (h : b.Tight) (mem : ℕ → UInt8) (data : Bytes) :
    ∃ b', b.add (some mem) data = some (true, b') ∧ b'.Tight ∧
      b'.contents = b.contents ++ data := by
  obtain ⟨fs, es, hs, he⟩ := h
  unfold Evbuffer.add
  by_cases hnil : b.chains = []
  · -- the first chain of the buffer
    have hzero : b.lastWithDatap = 0 ∧ b.totalLen = 0 := by
      obtain ⟨rfl, rfl⟩ : fs = [] ∧ es = [] := by simpa [hs.chains] using hnil
      exact ⟨hs.last, hs.total⟩
    have hbytes : b.contents = [] := by rw [contents, hnil]; rfl
    have hinsert : b.chainInsert (chainNew mem data.length) =
        some { chains := [chainNew mem data.length], lastWithDatap := 0, totalLen := 0 } := by
      simp [Evbuffer.chainInsert, hnil, hzero, chainNew]
    rw [hnil]
    simp only [List.getLast?_nil, hinsert, Option.bind_some]
    obtain ⟨b', heq, htight, hb'⟩ := addTo_tight (c := chainNew mem data.length)
      (b := { chains := [] ++ [chainNew mem data.length], lastWithDatap := 0, totalLen := 0 }) rfl
      (by simp) rfl (Or.inr ⟨rfl, (vacant_chainNew mem _).2⟩) rfl mem data
    refine ⟨b', heq, htight, ?_⟩
    rw [hb', hbytes]
    simp [contents, chainNew]
  · obtain ⟨front, c, hchains⟩ : ∃ front c, b.chains = front ++ [c] :=
      ⟨_, _, (List.dropLast_append_getLast hnil).symm⟩
    have haddTo := addTo_tight hchains
    rw [hchains, List.getLast?_concat, List.dropLast_concat]
    rcases he with rfl | ⟨rfl, hlen⟩
    · obtain rfl : fs = front ++ [c] := by rw [← hchains, hs.chains, List.append_nil]
      exact haddTo (fun d hd => hs.full d (List.mem_append_left _ hd)) (by simp [hs.last])
        (Or.inl (hs.full c (by simp))) (by simp [hs.total]) mem data
    · obtain ⟨rfl, rfl⟩ : front = [] ∧ es = [c] := by
        have hes : es = front ++ [c] := by rw [← hchains, hs.chains, List.nil_append]
        have hfront : front = [] := by
          rw [hes, List.length_append, List.length_singleton] at hlen
          exact List.length_eq_zero_iff.mp (by omega)
        rw [hes, hfront]
        exact ⟨rfl, rfl⟩
      obtain ⟨hoff, hbuf⟩ := hs.vacant c (List.mem_singleton_self c)
      exact haddTo (by simp) hs.last (Or.inr ⟨rfl, hbuf⟩) (by simp [hs.total, hoff]) mem data

end Add

section RemoveBuffer

/-- `evbuffer_add_buffer` moves all bytes. -/
theorem addBuffer_tight {src dst : Evbuffer} (hsrc : src.Tight) (hdst : dst.Tight) :
    (addBuffer src dst).1.Tight ∧ (addBuffer src dst).2.Tight ∧
      (addBuffer src dst).1.contents = [] ∧
      (addBuffer src dst).2.contents = dst.contents ++ src.contents := by
  unfold addBuffer
  split_ifs with h0 h1
  · have hnil : src.contents = [] := by
      rw [← List.length_eq_zero_iff, hsrc.filled.length_contents, h0]
    exact ⟨hsrc, hdst, hnil, by rw [hnil, List.append_nil]⟩
  · have hnil : dst.contents = [] := by
      rw [← List.length_eq_zero_iff, hdst.filled.length_contents, h1]
    exact ⟨shape_empty.tight, hsrc, rfl, by rw [hnil, List.nil_append]⟩
  · obtain ⟨fs, hs, hfs⟩ := hsrc.shape_of_ne h0
    obtain ⟨gs, hg, -⟩ := hdst.shape_of_ne h1
    have hpos := List.length_pos_iff.mpr hfs
    have hshape : Evbuffer.Shape ⟨dst.chains ++ src.chains, dst.chains.length + src.lastWithDatap,
        dst.totalLen + src.totalLen⟩ (gs ++ fs) [] := by
      refine ⟨by simp [hs.chains, hg.chains], ?_, by simp, ?_, by simp [hs.total, hg.total]⟩
      · intro c hc
        exact (List.mem_append.mp hc).elim (hg.full c) (hs.full c)
      · simp only [hs.last, hg.chains, List.append_nil, List.length_append]
        omega
    refine ⟨shape_empty.tight, hshape.tight, rfl, ?_⟩
    rw [hshape.contents, bytesOf_append, hs.contents, hg.contents]

/-- Taking less than all bytes stops at a chain with data, before `last_with_datap` or at it. -/
theorem unlinkChains_full {fs : List Chain} (hf : ∀ c ∈ fs, c.off ≠ 0) {n : ℕ}
    (hn : n < (bytesOf fs).length) :
    ∃ r, unlinkChains (fs.length - 1) n fs = some r ∧ fs = r.moved ++ r.chain :: r.rest ∧
      r.lastWithDatap = r.rest.length ∧ n = (bytesOf r.moved).length + r.datlen := by
  induction fs generalizing n with
  | nil => simp at hn
  | cons c cs ih =>
    have hcs : ∀ d ∈ cs, d.off ≠ 0 := fun d hd => hf d (List.mem_cons_of_mem c hd)
    have hlen := Window.length_data c
    rw [bytesOf_cons, List.length_append, hlen] at hn
    rw [unlinkChains]
    split_ifs with h h0
    · exact ⟨_, rfl, rfl, rfl, (Nat.zero_add n).symm⟩
    · obtain rfl : cs = [] := List.length_eq_zero_iff.mp (by simpa using h0)
      simp at hn
      omega
    · obtain ⟨r, heq, hsplit, hlast, hdat⟩ := ih hcs (n := n - c.off) (by omega)
      refine ⟨{ r with moved := c :: r.moved }, ?_, ?_, hlast, ?_⟩
      · rw [List.length_cons, Nat.add_sub_cancel, heq]
        rfl
      · rw [hsplit]
        rfl
      · show n = (bytesOf (c :: r.moved)).length + r.datlen
        rw [bytesOf_cons, List.length_append, hlen]
        omega

/-- Chains with data are linked behind those of the destination. -/
theorem Tight.linkChains {dst : Evbuffer} (h : dst.Tight) {moved : List Chain}
    (hm : ∀ c ∈ moved, c.off ≠ 0) (hne : moved ≠ []) :
    ∃ d, dst.linkChains moved (bytesOf moved).length = some d ∧ d.Tight ∧
      d.contents = dst.contents ++ bytesOf moved := by
  obtain ⟨fs, es, hs, he⟩ := h
  have hpos := List.length_pos_iff.mpr hne
  have hfree : dst.freeTrailingEmptyChains = some { dst with chains := fs } := by
    unfold freeTrailingEmptyChains
    rw [hs.victim, hs.chains, List.drop_left, List.take_left, if_pos]
    exact (chainsAllEmpty_iff es).mpr fun c hc => (hs.vacant c hc).1
  have hwalk : ((fs ++ moved).drop (dst.lastWithDatap + 1)).takeWhile
      (fun c => decide (c.off ≠ 0)) = (fs ++ moved).drop (dst.lastWithDatap + 1) := by
    rw [List.takeWhile_eq_self_iff]
    intro c hc
    have hmem := List.mem_append.mp (List.mem_of_mem_drop hc)
    simpa using hmem.elim (hs.full c) (hm c)
  have hlt : ¬ (fs ++ moved).length ≤ dst.lastWithDatap := by
    rw [hs.last, List.length_append]
    omega
  have hshape : Evbuffer.Shape ⟨fs ++ moved, dst.lastWithDatap +
      ((fs ++ moved).drop (dst.lastWithDatap + 1)).length,
      dst.totalLen + (bytesOf moved).length⟩ (fs ++ moved) [] := by
    refine ⟨by rw [List.append_nil], ?_, by simp, ?_, by simp [hs.total]⟩
    · intro c hc
      exact (List.mem_append.mp hc).elim (hs.full c) (hm c)
    · simp only [hs.last, List.length_drop, List.length_append]
      omega
  refine ⟨_, ?_, hshape.tight, ?_⟩
  · simp only [Evbuffer.linkChains, hfree, Option.map_some, advanceLastWithData, if_neg hlt, hwalk]
  · rw [hshape.contents, bytesOf_append, hs.contents]

/-- `evbuffer_remove_buffer` moves the first bytes of the source behind those of the destination. -/
theorem Tight.removeBuffer {src dst : Evbuffer} (hsrc : src.Tight) (hdst : dst.Tight)
    (mem : ℕ → UInt8) (n : ℕ) :
    ∃ src' dst', src.removeBuffer (some mem) dst n = some (src', dst') ∧ src'.Tight ∧ dst'.Tight ∧
      src'.contents = src.contents.drop n ∧
      dst'.contents = dst.contents ++ src.contents.take n := by
  have hlen := hsrc.filled.length_contents
  unfold Evbuffer.removeBuffer
  by_cases h0 : n = 0
  · rw [if_pos h0, h0]
    exact ⟨src, dst, rfl, hsrc, hdst, rfl, (List.append_nil _).symm⟩
  rw [if_neg h0]
  by_cases hall : src.totalLen ≤ n
  · obtain ⟨h1, h2, h3, h4⟩ := addBuffer_tight hsrc hdst
    rw [if_pos hall]
    refine ⟨(addBuffer src dst).1, (addBuffer src dst).2, rfl, h1, h2, ?_, ?_⟩
    · rw [h3, List.drop_of_length_le (by omega)]
    · rw [h4, List.take_of_length_le (by omega)]
  rw [if_neg hall]
  obtain ⟨fs, hs, -⟩ := hsrc.shape_of_ne (by omega)
  obtain ⟨r, heq, rfl, hlast, hdat⟩ :=
    unlinkChains_full hs.full (n := n) (by rw [← hs.total]; omega)
  have hmoved : ∀ c ∈ r.moved, c.off ≠ 0 := fun c hc => hs.full c (List.mem_append_left _ hc)
  have hrest : ∀ c ∈ r.rest, c.off ≠ 0 := fun c hc => hs.full c (by simp [hc])
  have hnone : (bytesOf r.moved).length = 0 → r.moved = [] := fun h => by
    by_contra hne
    exact bytesOf_ne_nil hmoved hne (List.length_eq_zero_iff.mp h)
  -- what is left of the source
  obtain ⟨kept, hkept⟩ : ∃ kept, r.chain.advance r.datlen (Nat.le_of_lt r.lt) :: r.rest = kept :=
    ⟨_, rfl⟩
  have hbytes : bytesOf kept = src.contents.drop n := by
    rw [← hkept, hs.contents, bytesOf_append, hdat, List.drop_append,
      List.drop_of_length_le (by omega), Nat.add_sub_cancel_left, bytesOf_cons, bytesOf_cons,
      Window.data_advance,
      List.drop_append_of_le_length (by rw [Window.length_data]; exact Nat.le_of_lt r.lt)]
    rfl
  have hsrc' : Evbuffer.Shape ⟨kept, r.rest.length, src.totalLen - n⟩ kept [] := by
    refine ⟨by rw [List.append_nil], ?_, by simp, by simp [← hkept], ?_⟩
    · intro c hc
      rw [← hkept] at hc
      rcases List.mem_cons.mp hc with rfl | hc
      · have := r.lt
        rw [Window.off_advance]
        omega
      · exact hrest c hc
    · rw [hbytes, List.length_drop, hlen]
  -- the destination takes whole chains, and then the bytes of one more
  have hdst' : ∃ d, (if (bytesOf r.moved).length = 0 then some dst
      else dst.linkChains r.moved (bytesOf r.moved).length) = some d ∧ d.Tight ∧
      d.contents = dst.contents ++ bytesOf r.moved := by
    split_ifs with h
    · exact ⟨dst, rfl, hdst, by rw [hnone h, bytesOf_nil, List.append_nil]⟩
    · exact hdst.linkChains hmoved (by rintro hnil; exact h (by rw [hnil]; rfl))
  obtain ⟨d, hd, hdt, hdc⟩ := hdst'
  obtain ⟨dst', hadd, ht', hc'⟩ := hdt.add mem (r.chain.data.take r.datlen)
  refine ⟨⟨kept, r.rest.length, src.totalLen - n⟩, dst', ?_, hsrc'.tight, ht',
    hsrc'.contents.trans hbytes, ?_⟩
  · rw [hs.last, hs.chains, List.append_nil, heq]
    simp only [Option.bind_some, hd, hadd, Option.map_some, hkept, hlast]
    by_cases h : (bytesOf r.moved).length = 0
    · simp [hnone h]
    · simp [h]
  · have hwhole : (bytesOf r.moved).take ((bytesOf r.moved).length + r.datlen) = bytesOf r.moved :=
      List.take_of_length_le (Nat.le_add_right _ _)
    rw [hc', hdc, hs.contents, bytesOf_append, hdat, List.take_append, hwhole,
      Nat.add_sub_cancel_left, bytesOf_cons,
      List.take_append_of_le_length (by rw [Window.length_data]; exact Nat.le_of_lt r.lt),
      List.append_assoc]

end RemoveBuffer

section Write

/-- The vectors given to `writev` hold the first bytes of the buffer. -/
theorem isPrefix_iovecs (n howmuch : ℕ) (cs : List Chain) :
    (iovecs n howmuch cs).flatten <+: (bytesOf cs).take howmuch := by
  induction cs generalizing n howmuch with
  | nil => cases n <;> simp [iovecs]
  | cons c cs ih =>
    have hlen := Window.length_data c
    cases n with
    | zero => simp [iovecs]
    | succ n =>
      rw [iovecs, bytesOf_cons]
      split_ifs with h0 h
      · exact List.nil_prefix
      · rw [List.flatten_cons, List.take_append, List.take_of_length_le (by omega), hlen]
        exact (List.prefix_append_right_inj c.data).mpr (ih n _)
      · have heq : [c.data.take howmuch].flatten = (c.data ++ bytesOf cs).take howmuch := by
          rw [List.flatten_singleton, List.take_append_of_le_length (by omega)]
        exact heq ▸ List.prefix_rfl

/-- `evbuffer_write_atmost` sends bytes from the front of the buffer and drops just those. -/
theorem Filled.writeAtmost {b : Evbuffer} (h : b.Filled) (howmuch : ℤ) (writev : Option ℕ) :
    (b.writeAtmost howmuch writev).1 ++ (b.writeAtmost howmuch writev).2.contents = b.contents ∧
      KeepsVacant b (b.writeAtmost howmuch writev).2 := by
  obtain ⟨written, hwritten⟩ : ∃ w, (b.writeAtmost howmuch writev).1 = w := ⟨_, rfl⟩
  have hbuf : (b.writeAtmost howmuch writev).2 =
      if written = [] then b else b.drain written.length := by
    rw [← hwritten]
    rfl
  obtain ⟨rest, hrest⟩ : written <+: b.contents := by
    rw [← hwritten]
    exact (List.take_prefix _ _).trans ((isPrefix_iovecs _ _ _).trans (List.take_prefix _ _))
  rw [hwritten, hbuf]
  split_ifs with hnil
  · exact ⟨by rw [hnil, List.nil_append], .refl b⟩
  · refine ⟨?_, drain_keepsVacant b _⟩
    rw [h.contents_drain, ← hrest, List.drop_left]

end Write

section Read

/-- The space of a list of chains. -/
def spaceOf (cs : List Chain) : ℕ := (cs.map Window.space).sum

@[simp] theorem spaceOf_nil : spaceOf [] = 0 := rfl

@[simp] theorem spaceOf_cons (c : Chain) (cs : List Chain) :
    spaceOf (c :: cs) = c.space + spaceOf cs := List.sum_cons

@[simp] theorem spaceOf_append (cs ds : List Chain) :
    spaceOf (cs ++ ds) = spaceOf cs + spaceOf ds := by
  simp [spaceOf]

theorem spaceOf_dropLast_le (cs : List Chain) : spaceOf cs.dropLast ≤ spaceOf cs := by
  rcases List.eq_nil_or_concat' cs with rfl | ⟨init, c, rfl⟩
  · exact Nat.le_refl _
  · rw [List.dropLast_concat, spaceOf_append]
    exact Nat.le_add_right _ _

/-- What the loop of `_evbuffer_expand_fast` has found when it ends: `room` are the chains with
space that it came past, the last of which was needed, and `unv` the chains it did not look at. -/
structure Scanned (datlen n : ℕ) (r : Expansion) (room unv : List Chain) : Prop where
  used : r.used = room.length
  used_le : r.used ≤ n
  avail : r.avail = spaceOf room
  space_pos : ∀ c ∈ room, 0 < c.space
  needed : spaceOf room.dropLast < datlen
  enough : r.enough = true → datlen ≤ spaceOf room
  short : r.enough = false → spaceOf room < datlen
  rest : r.enough = false → r.used < n → unv = []

/-- The loop of `_evbuffer_expand_fast` over vacant chains, `hd` being the chains with space before
them. -/
theorem expandChains_vacant {es : List Chain} (he : ∀ c ∈ es, c.Vacant) {datlen n : ℕ} (last : Bool)
    (hd : List Chain) (hpos : ∀ c ∈ hd, 0 < c.space) (hused : hd.length < n)
    (havail : spaceOf hd < datlen) :
    ∃ r vis unv, expandChains datlen n last hd.length (spaceOf hd) es = some r ∧
      r.chains = vis ++ unv ∧ vis.length + unv.length = es.length ∧
      (∀ c ∈ vis ++ unv, c.Vacant) ∧ Scanned datlen n r (hd ++ vis) unv := by
  induction es generalizing hd last with
  | nil =>
    refine ⟨_, [], [], rfl, rfl, rfl, by simp, ?_⟩
    rw [List.append_nil]
    have := spaceOf_dropLast_le hd
    exact ⟨rfl, Nat.le_of_lt hused, rfl, hpos, by omega, by simp, fun _ => havail, fun _ _ => rfl⟩
  | cons e es ih =>
    have hv : e.Vacant := he e List.mem_cons_self
    have hes : ∀ c ∈ es, c.Vacant := fun c hc => he c (List.mem_cons_of_mem e hc)
    have hroom : ∀ c ∈ hd ++ [e.rewind hv.1], 0 < c.space := by
      intro c hc
      rcases List.mem_append.mp hc with hc | hc
      · exact hpos c hc
      · rw [List.mem_singleton.mp hc]
        exact hv.space_rewind
    have hall : ∀ c : Chain, c ∈ [e.rewind hv.1] ++ es → c.Vacant := by
      intro c hc
      rcases List.mem_cons.mp hc with rfl | hc
      · exact hv.rewind
      · exact hes c hc
    have hlen : (hd ++ [e.rewind hv.1]).length = hd.length + 1 := by simp
    have hspace : spaceOf (hd ++ [e.rewind hv.1]) = spaceOf hd + (e.rewind hv.1).space := by simp
    have hdrop : spaceOf (hd ++ [e.rewind hv.1]).dropLast < datlen := by
      rwa [List.dropLast_concat]
    rw [expandChains, if_neg (fun h => h.2 hv.1)]
    simp only [ne_eq, hv.1, not_true_eq_false, false_and, ↓reduceIte, ↓reduceDIte]
    split_ifs with henough hfull
    · exact ⟨_, [e.rewind hv.1], es, rfl, rfl, Nat.add_comm _ _, hall, hlen.symm, hused,
        hspace.symm, hroom, hdrop, fun _ => hspace ▸ henough, by simp, by simp⟩
    · refine ⟨_, [e.rewind hv.1], es, rfl, rfl, Nat.add_comm _ _, hall, hlen.symm, hused,
        hspace.symm, hroom, hdrop, by simp, fun _ => ?_, fun _ h => ?_⟩
      · rw [hspace]
        exact Nat.lt_of_not_le henough
      · exact absurd h (by simp [hfull])
    · obtain ⟨r, vis, unv, heq, hchains, hcount, hvac, hscan⟩ :=
        ih hes false (hd ++ [e.rewind hv.1]) hroom (by omega) (by omega)
      rw [hlen, hspace] at heq
      rw [List.append_assoc] at hscan
      refine ⟨{ r with chains := e.rewind hv.1 :: r.chains }, e.rewind hv.1 :: vis, unv,
        by rw [heq]; rfl, by rw [hchains]; rfl, ?_, ?_, ⟨hscan.1, hscan.2, hscan.3, hscan.4,
          hscan.5, hscan.6, hscan.7, hscan.8⟩⟩
      · simp only [List.length_cons]
        omega
      · intro c hc
        rcases List.mem_cons.mp hc with rfl | hc
        · exact hv.rewind
        · exact hvac c hc

/-- The last chain with data belongs to the room if it has space. -/
theorem exists_front (fs : List Chain) :
    ∃ front hd, fs = front ++ hd ∧ hd.length ≤ 1 ∧ (∀ c ∈ hd, 0 < c.space) ∧
      spaceOf hd = spaceOf (fs.drop (fs.length - 1)) ∧
      ∀ es e ds, hd ++ es = e :: ds → 0 < e.space →
        ∃ c, (fs ++ es)[fs.length - 1]? = some c ∧
          (if c.space = 0 then fs.length - 1 + 1 else fs.length - 1) = front.length := by
  rcases List.eq_nil_or_concat' fs with rfl | ⟨init, c, rfl⟩
  · refine ⟨[], [], rfl, Nat.zero_le _, by simp, rfl, ?_⟩
    rintro _ e ds rfl hpos
    exact ⟨e, rfl, if_neg (Nat.ne_of_gt hpos)⟩
  · have hget (es : List Chain) : (init ++ [c] ++ es)[init.length]? = some c := by simp
    have hlast : (init ++ [c]).length - 1 = init.length := by simp
    rw [hlast, List.drop_left]
    by_cases hc : c.space = 0
    · refine ⟨init ++ [c], [], by simp, Nat.zero_le _, by simp, by simp [hc], fun es _ _ _ _ => ?_⟩
      exact ⟨c, hget es, by simp [hc]⟩
    · refine ⟨init, [c], rfl, Nat.le_refl _, ?_, rfl, fun es _ _ _ _ => ?_⟩
      · intro d hd
        rw [List.mem_singleton.mp hd]
        exact Nat.pos_of_ne_zero hc
      · exact ⟨c, hget es, if_neg hc⟩

/-- The loop of `_evbuffer_expand_fast` from the last chain with data on. -/
theorem Shape.scan {b : Evbuffer} {front hd es : List Chain} (h : b.Shape (front ++ hd) es)
    (hlen : hd.length ≤ 1) (hpos : ∀ c ∈ hd, 0 < c.space) {datlen : ℕ} (hdat : 0 < datlen)
    (hhd : spaceOf hd = spaceOf ((front ++ hd).drop ((front ++ hd).length - 1))) :
    ∃ r vis unv, expandChains datlen 4 true 0 0 (b.chains.drop b.lastWithDatap) = some r ∧
      r.chains = (front ++ hd).drop ((front ++ hd).length - 1) ++ (vis ++ unv) ∧
      vis.length + unv.length = es.length ∧ (∀ c ∈ vis ++ unv, c.Vacant) ∧
      Scanned datlen 4 r (hd ++ vis) unv := by
  obtain ⟨fs, hfs⟩ : ∃ fs, front ++ hd = fs := ⟨_, rfl⟩
  rw [hfs] at h hhd ⊢
  rcases List.eq_nil_or_concat' fs with rfl | ⟨init, c, rfl⟩
  · obtain ⟨-, rfl⟩ := List.append_eq_nil_iff.mp hfs
    rw [h.chains, h.last]
    exact expandChains_vacant h.vacant true [] hpos (by decide) hdat
  · have hlast : (init ++ [c]).length - 1 = init.length := by simp
    have hoff : c.off ≠ 0 := h.full c (by simp)
    rw [h.chains, h.last, hlast, List.append_assoc, List.drop_left]
    rw [hlast, List.drop_left, spaceOf_cons, spaceOf_nil, Nat.add_zero] at hhd
    rw [List.drop_left, List.singleton_append, expandChains, if_neg (by simp)]
    have hused : (if c.off ≠ 0 ∧ c.space = 0 then 0 else 0 + 1) = hd.length := by
      cases hd with
      | nil => exact if_pos ⟨hoff, hhd.symm⟩
      | cons d ds =>
        have := hpos d List.mem_cons_self
        rw [spaceOf_cons] at hhd
        rw [if_neg (by omega)]
        simp at hlen
        simp [hlen]
    simp only [dif_neg hoff, Nat.zero_add] at hused ⊢
    rw [hused, ← hhd]
    split_ifs with henough hfull
    · refine ⟨_, [], es, rfl, rfl, Nat.zero_add _, h.vacant, ?_⟩
      rw [List.append_nil]
      have hne : hd ≠ [] := by
        rintro rfl
        exact absurd henough (Nat.not_le_of_lt hdat)
      refine ⟨rfl, Nat.le_trans hlen (by decide), rfl, hpos, ?_, fun _ => henough, by simp, by simp⟩
      obtain ⟨d, rfl⟩ : ∃ d, hd = [d] :=
        List.length_eq_one_iff.mp (Nat.le_antisymm hlen (List.length_pos_iff.mpr hne))
      exact hdat
    · omega
    · obtain ⟨r, vis, unv, heq, hchains, hcount, hvac, hscan⟩ :=
        expandChains_vacant (n := 4) h.vacant false hd hpos (Nat.lt_of_le_of_lt hlen (by decide))
          (Nat.lt_of_not_le henough)
      exact ⟨{ r with chains := c :: r.chains }, vis, unv, by rw [heq]; rfl, by rw [hchains]; rfl,
        hcount, hvac, hscan.1, hscan.2, hscan.3, hscan.4, hscan.5, hscan.6, hscan.7, hscan.8⟩

/-- A buffer into which `datlen` bytes can be read: `front` are the chains before the first one with
space, and `room` the chains with the space. -/
structure Ready (b : Evbuffer) (front room unv : List Chain) (datlen : ℕ) : Prop where
  chains : b.chains = front ++ (room ++ unv)
  full : ∀ c ∈ front, c.off ≠ 0
  vacant : ∀ c ∈ room.tail ++ unv, c.Vacant
  first : ∃ c, b.chains[b.lastWithDatap]? = some c ∧
    (if c.space = 0 then b.lastWithDatap + 1 else b.lastWithDatap) = front.length
  length_le : room.length ≤ 4
  space_pos : ∀ c ∈ room, 0 < c.space
  le_space : datlen ≤ spaceOf room
  needed : spaceOf room.dropLast < datlen

theorem Shape.ready {b : Evbuffer} {front hd vis unv : List Chain} {datlen : ℕ}
    (h : b.Shape (front ++ hd) (vis ++ unv)) (hhd : hd.length ≤ 1)
    (hfirst : ∀ es e ds, hd ++ es = e :: ds → 0 < e.space →
      ∃ c, (front ++ hd ++ es)[(front ++ hd).length - 1]? = some c ∧
        (if c.space = 0 then (front ++ hd).length - 1 + 1 else (front ++ hd).length - 1) =
          front.length)
    (hpos : ∀ c ∈ hd ++ vis, 0 < c.space) (hlen : (hd ++ vis).length ≤ 4)
    (hneed : spaceOf (hd ++ vis).dropLast < datlen) (hle : datlen ≤ spaceOf (hd ++ vis)) :
    Ready b front (hd ++ vis) unv datlen := by
  refine ⟨?_, fun c hc => h.full c (List.mem_append_left hd hc), ?_, ?_, hlen, hpos, hle, hneed⟩
  · rw [h.chains]
    simp only [List.append_assoc]
  · intro c hc
    refine h.vacant c ?_
    cases hd with
    | nil =>
      rcases List.mem_append.mp hc with hc | hc
      · exact List.mem_append_left _ (List.mem_of_mem_tail hc)
      · exact List.mem_append_right _ hc
    | cons d ds =>
      obtain rfl : ds = [] := List.length_eq_zero_iff.mp (by simpa using hhd)
      exact hc
  · obtain ⟨e, ds, he⟩ : ∃ e ds, hd ++ vis = e :: ds := by
      refine List.exists_cons_of_ne_nil ?_
      rintro hnil
      rw [hnil] at hneed hle
      exact absurd hneed (Nat.not_lt_of_le hle)
    rw [h.chains, h.last]
    exact hfirst (vis ++ unv) e (ds ++ unv) (by rw [← List.append_assoc, he]; rfl)
      (hpos e (by rw [he]; exact List.mem_cons_self))

/-- What `_evbuffer_expand_fast` comes to on a buffer of the form `fs`, `es`: no byte changes, and
there is room if it returns 0. -/
def Expanded (b : Evbuffer) (fs es : List Chain) (mem : Malloc) (datlen : ℕ)
    (out : Option (Bool × Evbuffer)) : Prop :=
  ∃ ok b', out = some (ok, b') ∧ b'.Filled ∧ b'.contents = b.contents ∧
    (mem.isSome → ok = true) ∧
    (ok = true → ∃ front room unv, Ready b' front room unv datlen ∧
      (es = [] ∨ fs = [] ∧ es.length ≤ 1 → unv = []))

theorem Shape.expanded_none {b b' : Evbuffer} {fs es es' : List Chain} (h : b.Shape fs es)
    {datlen : ℕ} (h' : b'.Shape fs es') : Expanded b fs es none datlen (some (false, b')) :=
  ⟨false, b', rfl, ⟨fs, es', h'⟩, h'.contents.trans h.contents.symm, by simp, by simp⟩

/-- `_evbuffer_expand_fast` makes room and changes no byte. -/
theorem Shape.expandFast {b : Evbuffer} {fs es : List Chain} (h : b.Shape fs es) (mem : Malloc)
    {datlen : ℕ} (hpos : 0 < datlen) : Expanded b fs es mem datlen (b.expandFast mem datlen 4) := by
  obtain ⟨front, hd, rfl, hlen, hhdpos, hhd, hfirst⟩ := exists_front fs
  have hshape (es' : List Chain) (hvac : ∀ c ∈ es', c.Vacant) :
      Evbuffer.Shape ⟨front ++ hd ++ es', b.lastWithDatap, b.totalLen⟩ (front ++ hd) es' :=
    ⟨rfl, h.full, hvac, h.last, h.total⟩
  -- the outcome with vacant chains `vis ++ unv`, of which `vis` count as room
  have hok (vis unv : List Chain) (hvac : ∀ c ∈ vis ++ unv, c.Vacant)
      (hvis : ∀ c ∈ hd ++ vis, 0 < c.space) (hfour : (hd ++ vis).length ≤ 4)
      (hneed : spaceOf (hd ++ vis).dropLast < datlen) (hle : datlen ≤ spaceOf (hd ++ vis))
      (hunv : es = [] ∨ front ++ hd = [] ∧ es.length ≤ 1 → unv = []) :
      Expanded b (front ++ hd) es mem datlen
        (some (true, ⟨front ++ hd ++ (vis ++ unv), b.lastWithDatap, b.totalLen⟩)) :=
    ⟨true, _, rfl, ⟨_, _, hshape _ hvac⟩, (hshape _ hvac).contents.trans h.contents.symm,
      fun _ => rfl,
      fun _ => ⟨front, hd ++ vis, unv, (hshape _ hvac).ready hlen hfirst hvis hfour hneed hle,
        hunv⟩⟩
  -- one more chain behind the room found so far
  have hnew (vis : List Chain) (new : Chain) (hvac : ∀ c ∈ vis, c.Vacant)
      (hvis : ∀ c ∈ hd ++ vis, 0 < c.space) (hfour : (hd ++ vis).length < 4)
      (hshort : spaceOf (hd ++ vis) < datlen) (hv : new.Vacant)
      (hle : datlen - spaceOf (hd ++ vis) ≤ new.space) :
      Expanded b (front ++ hd) es mem datlen
        (some (true, ⟨front ++ hd ++ (vis ++ [new]), b.lastWithDatap, b.totalLen⟩)) := by
    have hlast : hd ++ (vis ++ [new]) = hd ++ vis ++ [new] := (List.append_assoc _ _ _).symm
    have := hok (vis ++ [new]) [] ?_ ?_ ?_ ?_ ?_ fun _ => rfl
    · rwa [List.append_nil] at this
    · simpa [or_imp, forall_and] using ⟨hvac, hv⟩
    · rw [hlast]
      intro c hc
      rcases List.mem_append.mp hc with hc | hc
      · exact hvis c hc
      · rw [List.mem_singleton.mp hc]
        omega
    · rw [hlast, List.length_append]
      exact hfour
    · rwa [hlast, List.dropLast_concat]
    · rw [hlast, spaceOf_append, spaceOf_cons, spaceOf_nil]
      omega
  unfold Evbuffer.expandFast
  by_cases hnil : b.chains = []
  · -- the first chain of the buffer
    obtain ⟨hfh, rfl⟩ := List.append_eq_nil_iff.mp (h.chains.symm.trans hnil)
    obtain ⟨rfl, rfl⟩ := List.append_eq_nil_iff.mp hfh
    have hlast : b.lastWithDatap = 0 := h.last
    rw [if_pos hnil]
    cases mem with
    | none => exact h.expanded_none h
    | some mem =>
      have := hnew [] _ (by simp) (by simp) (by decide) hpos (vacant_chainNew mem datlen)
        (le_space_chainNew mem datlen)
      rw [hlast] at this
      simpa [Evbuffer.chainInsert, hnil, hlast, chainNew] using this
  rw [if_neg hnil]
  obtain ⟨r, vis, unv, hexp, hchains, hcount, hvac, hscan⟩ := h.scan hlen hhdpos hpos hhd
  have htake : b.chains.take b.lastWithDatap = (front ++ hd).take ((front ++ hd).length - 1) := by
    rw [h.chains, h.last, List.take_append_of_le_length (Nat.sub_le _ _)]
  have hwhole : b.chains.take b.lastWithDatap ++ r.chains = front ++ hd ++ (vis ++ unv) := by
    rw [htake, hchains, ← List.append_assoc, List.take_append_drop]
  have hvis : ∀ c ∈ vis, c.Vacant := fun c hc => hvac c (List.mem_append_left _ hc)
  have hroom : (hd ++ vis).length = r.used := hscan.used.symm
  rw [hexp, Option.bind_some]
  simp only [hwhole]
  cases henough : r.enough with
  | true =>
    have hle := hscan.enough henough
    refine hok vis unv hvac hscan.space_pos (hroom ▸ hscan.used_le) hscan.needed hle ?_
    rintro (rfl | ⟨hfs, hes⟩)
    · exact List.length_eq_zero_iff.mp (Nat.add_eq_zero_iff.mp hcount).2
    · obtain ⟨-, rfl⟩ := List.append_eq_nil_iff.mp hfs
      have hvis : vis ≠ [] := by
        rintro rfl
        exact absurd hle (Nat.not_le_of_lt hpos)
      have := List.length_pos_iff.mpr hvis
      exact List.length_eq_zero_iff.mp (by omega)
  | false =>
    have hshort := hscan.short henough
    rw [if_neg Bool.false_ne_true]
    by_cases hused : r.used < 4
    · obtain rfl := hscan.rest henough hused
      rw [if_pos hused, List.append_nil]
      cases mem with
      | none => exact h.expanded_none (hshape vis hvis)
      | some mem =>
        rw [hscan.avail]
        simp only [List.append_assoc (front ++ hd)]
        exact hnew vis _ hvis hscan.space_pos (hroom ▸ hused) hshort (vacant_chainNew mem _)
          (le_space_chainNew mem _)
    · -- all vacant chains are freed
      have hempty : chainsAllEmpty (vis ++ unv) = true :=
        (chainsAllEmpty_iff _).mpr fun c hc => (hvac c hc).1
      rw [if_neg hused, hchains, htake]
      rcases List.eq_nil_or_concat' (front ++ hd) with hfs | ⟨init, c, hfs⟩
      · obtain ⟨rfl, rfl⟩ := List.append_eq_nil_iff.mp hfs
        obtain ⟨e, ds, hed⟩ : ∃ e ds, vis ++ unv = e :: ds := by
          cases vis with
          | nil => exact absurd (show r.used < 4 by rw [← hroom]; decide) hused
          | cons e ds => exact ⟨e, ds ++ unv, rfl⟩
        have hoff : e.off = 0 := (hvac e (by rw [hed]; exact List.mem_cons_self)).1
        have hlast : b.lastWithDatap = 0 := h.last
        simp only [hfs, List.drop_nil, List.nil_append, hed] at hempty ⊢
        have hds : chainsAllEmpty ds = true := by
          rw [chainsAllEmpty_iff] at hempty ⊢
          exact fun c hc => hempty c (List.mem_cons_of_mem e hc)
        simp only [hds, not_true_eq_false, hoff, hlast, ne_eq, ↓reduceIte]
        cases mem with
        | none => exact h.expanded_none shape_empty
        | some mem =>
          have := hnew [] _ (by simp) (by simp) (by decide) hpos (vacant_chainNew mem datlen)
            (le_space_chainNew mem datlen)
          rwa [hlast] at this
      · have hlast : (front ++ hd).length - 1 = init.length := by simp [hfs]
        have hoff : c.off ≠ 0 := h.full c (by simp [hfs])
        have hspace : spaceOf hd = c.space := by
          rw [hhd, hlast, hfs, List.drop_left]
          simp
        rw [hlast, hfs, List.take_left, List.drop_left]
        simp only [List.singleton_append, hempty, not_true_eq_false, hoff, ↓reduceIte]
        cases mem with
        | none =>
          have hs := hshape [] (by simp)
          rw [List.append_nil, hfs] at hs
          exact (hfs ▸ h).expanded_none hs
        | some mem =>
          have hlt : spaceOf (hd ++ []) < datlen := by
            rw [spaceOf_append] at hshort ⊢
            exact Nat.lt_of_le_of_lt (Nat.add_le_add_left (Nat.zero_le _) _) hshort
          have := hnew [] (chainNew mem (datlen - c.space)) (by simp) (by simpa using hhdpos)
            (by simpa using Nat.lt_of_le_of_lt hlen (by decide)) hlt (vacant_chainNew mem _)
            (by rw [List.append_nil, hspace]; exact le_space_chainNew mem _)
          simpa [hfs] using this

/-- `_evbuffer_read_setup_vecs` finds a vector for each chain that is needed. -/
theorem readSetupVecs_room {room : List Chain} {n m : ℕ} (unv : List Chain) (hlen : room.length ≤ m)
    (hpos : ∀ c ∈ room, 0 < c.space) (hle : n ≤ spaceOf room)
    (hneed : room ≠ [] → spaceOf room.dropLast < n) :
    ∃ vecs, readSetupVecs m n (room ++ unv) = some vecs ∧ vecs.length = room.length := by
  induction room generalizing n m with
  | nil =>
    obtain rfl : n = 0 := Nat.le_zero.mp hle
    cases m with
    | zero => exact ⟨[], rfl, rfl⟩
    | succ m => exact ⟨[], rfl, rfl⟩
  | cons c cs ih =>
    obtain ⟨m, rfl⟩ := Nat.exists_eq_add_of_lt (Nat.lt_of_lt_of_le (Nat.zero_lt_succ _) hlen)
    have hneed := hneed (List.cons_ne_nil c cs)
    rw [Nat.zero_add] at hlen ⊢
    unfold readSetupVecs
    rw [if_neg (by omega)]
    rw [spaceOf_cons] at hle
    obtain ⟨vecs, heq, hvecs⟩ := ih (n := n - min c.space n) (m := m) (by simpa using hlen)
      (fun d hd => hpos d (List.mem_cons_of_mem c hd)) (by omega) (fun hne => by
        rw [List.dropLast_cons_of_ne_nil hne, spaceOf_cons] at hneed
        omega)
    refine ⟨min c.space n :: vecs, ?_, by simp [hvecs]⟩
    simp only [List.cons_append, heq, Option.map_some]

/-- `evbuffer_read` takes the received bytes into use, behind the bytes that were there. -/
theorem commitRead_room {c : Chain} {cs : List Chain} (unv : List Chain) {n : ℕ} (bs : Bytes)
    (hlen : (c :: cs).length ≤ n) (hpos : ∀ d ∈ c :: cs, 0 < d.space) (hcs : ∀ d ∈ cs, d.off = 0)
    (hne : bs ≠ []) (hle : bs.length ≤ spaceOf (c :: cs)) :
    ∃ touched rest p, commitRead n bs (c :: cs ++ unv) = (touched ++ (rest ++ unv), some p) ∧
      touched.length = p + 1 ∧ (∀ d ∈ touched, d.off ≠ 0) ∧ (∀ d ∈ rest, d ∈ cs) ∧
      bytesOf touched = c.data ++ bs ∧
      (spaceOf (c :: cs).dropLast < bs.length → rest = []) := by
  induction cs generalizing c n bs with
  | nil =>
    obtain ⟨n, rfl⟩ := Nat.exists_eq_add_of_lt (Nat.lt_of_lt_of_le (Nat.zero_lt_succ _) hlen)
    have hfits : ¬ c.space < bs.length := by simpa using hle
    have hbs := List.length_pos_iff.mpr hne
    refine ⟨[c.append bs (Nat.le_of_not_lt hfits)], [], 0, ?_, rfl, ?_, by simp, by simp,
      fun _ => rfl⟩
    · rw [Nat.zero_add, List.cons_append, commitRead, dif_neg hfits]
      rfl
    · intro d hd
      rw [List.mem_singleton.mp hd, Window.off_append]
      omega
  | cons d ds ih =>
    obtain ⟨n, rfl⟩ := Nat.exists_eq_add_of_lt (Nat.lt_of_lt_of_le (Nat.zero_lt_succ _) hlen)
    have hbs := List.length_pos_iff.mpr hne
    have hspace : 0 < c.space := hpos c List.mem_cons_self
    rw [Nat.zero_add, List.cons_append, commitRead]
    by_cases hfits : c.space < bs.length
    · rw [dif_pos hfits]
      have hdrop : (bs.drop c.space).length = bs.length - c.space := List.length_drop
      obtain ⟨touched, rest, p, heq, hcount, hfull, hrest, hbytes, hall⟩ :=
        ih (c := d) (n := n) (bs.drop c.space) (by simpa using hlen)
          (fun e he => hpos e (List.mem_cons_of_mem c he))
          (fun e he => hcs e (List.mem_cons_of_mem d he))
          (by rw [← List.length_pos_iff, hdrop]; omega)
          (by rw [spaceOf_cons] at hle; omega)
      have hnil : d.data = [] := (Window.data_eq_nil_iff d).mpr (hcs d List.mem_cons_self)
      refine ⟨c.append (bs.take c.space) (List.length_take_le _ _) :: touched, rest, p + 1, ?_,
        by simp [hcount], ?_, fun e he => List.mem_cons_of_mem d (hrest e he), ?_, fun h => hall ?_⟩
      · simp only [heq]
        rfl
      · intro e he
        rcases List.mem_cons.mp he with rfl | he
        · rw [Window.off_append, List.length_take]
          omega
        · exact hfull e he
      · rw [bytesOf_cons, hbytes, Window.data_append, hnil, List.nil_append, List.append_assoc,
          List.take_append_drop]
      · rw [List.dropLast_cons_of_ne_nil (List.cons_ne_nil d ds), spaceOf_cons] at h
        omega
    · rw [dif_neg hfits]
      refine ⟨[c.append bs (Nat.le_of_not_lt hfits)], d :: ds, 0, rfl, rfl, ?_, fun e he => he,
        by simp, fun h => ?_⟩
      · intro e he
        rw [List.mem_singleton.mp he, Window.off_append]
        omega
      · rw [List.dropLast_cons_of_ne_nil (List.cons_ne_nil d ds), spaceOf_cons] at h
        omega

/-- `evbuffer_read` from a buffer with room on, when bytes have come: they stand behind those that
were there, and no chain with room is left vacant if the room was filled up to its last chain. -/
theorem Ready.commit {b : Evbuffer} {front room unv : List Chain} {datlen : ℕ}
    (h : Ready b front room unv datlen) (htotal : b.contents.length = b.totalLen) {bs : Bytes}
    (hne : bs ≠ []) (hle : bs.length ≤ datlen) :
    ∃ touched es p, commitRead room.length bs (room ++ unv) = (touched ++ es, some p) ∧
      Evbuffer.Shape ⟨front ++ (touched ++ es), front.length + p, b.totalLen + bs.length⟩
        (front ++ touched) es ∧
      bytesOf (front ++ touched) = b.contents ++ bs ∧ (bs.length = datlen → es = unv) := by
  obtain ⟨c, cs, rfl⟩ : ∃ c cs, room = c :: cs := by
    refine List.exists_cons_of_ne_nil ?_
    rintro rfl
    exact absurd h.needed (Nat.not_lt_of_le h.le_space)
  have hvac : ∀ d ∈ cs ++ unv, d.Vacant := h.vacant
  have hcs : ∀ d ∈ cs, d.off = 0 := fun d hd => (hvac d (List.mem_append_left _ hd)).1
  have hunv : ∀ d ∈ unv, d.off = 0 := fun d hd => (hvac d (List.mem_append_right _ hd)).1
  obtain ⟨touched, rest, p, heq, hcount, hfull, hrest, hbytes, hall⟩ :=
    commitRead_room unv bs (Nat.le_refl _) h.space_pos hcs hne (Nat.le_trans hle h.le_space)
  have hold : b.contents = bytesOf front ++ c.data := by
    rw [contents, h.chains, bytesOf_append, bytesOf_append, bytesOf_cons, bytesOf_vacant hcs,
      bytesOf_vacant hunv, List.append_nil, List.append_nil]
  have hnew : bytesOf (front ++ touched) = b.contents ++ bs := by
    rw [bytesOf_append, hbytes, hold, List.append_assoc]
  refine ⟨touched, rest ++ unv, p, heq, ⟨?_, ?_, ?_, ?_, ?_⟩, hnew, ?_⟩
  · rw [List.append_assoc]
  · intro d hd
    rcases List.mem_append.mp hd with hd | hd
    · exact h.full d hd
    · exact hfull d hd
  · intro d hd
    rcases List.mem_append.mp hd with hd | hd
    · exact hvac d (List.mem_append_left _ (hrest d hd))
    · exact hvac d (List.mem_append_right _ hd)
  · show front.length + p = (front ++ touched).length - 1
    rw [List.length_append, hcount]
    rfl
  · rw [hnew, List.length_append, htotal]
  · intro hdat
    rw [hall (hdat ▸ h.needed), List.nil_append]

theorem readSize_pos (readable : ℤ) {howmuch : ℤ} (h : howmuch ≠ 0) :
    0 < readSize readable howmuch := by
  simp only [readSize]
  split_ifs <;> omega

/-- `evbuffer_read` fails no assertion. What it delivers stands behind the bytes that were there,
and if it delivers all it asked for, it leaves no vacant chain. -/
theorem Shape.read {b : Evbuffer} {fs es : List Chain} (h : b.Shape fs es) (mem : Malloc)
    (readable : ℤ) {howmuch : ℤ} (hpos : howmuch ≠ 0) (readv : Option Bytes) :
    ∃ res b', b.read mem readable howmuch readv = some (res, b') ∧ b'.Filled ∧
      b'.contents = b.contents ++ (readv.getD []).take res.toNat ∧
      ∀ bs, mem.isSome → readv = some bs →
        res = ((bs.take (readSize readable howmuch)).length : ℤ) ∧
        ((es = [] ∨ fs = [] ∧ es.length ≤ 1) → readSize readable howmuch ≤ bs.length →
          b'.Tight) := by
  obtain ⟨n, hn⟩ : ∃ n, readSize readable howmuch = n := ⟨_, rfl⟩
  have hnpos : 0 < n := hn ▸ readSize_pos readable hpos
  obtain ⟨ok, b₁, hexp, hfilled, hcontents, hmem, hready⟩ := h.expandFast mem hnpos
  unfold Evbuffer.read
  simp only [hn, hexp, Option.bind_some]
  cases ok with
  | false =>
    refine ⟨-1, b₁, if_pos rfl, hfilled, by simp [hcontents], fun bs hm => ?_⟩
    exact absurd (hmem hm) Bool.false_ne_true
  | true =>
    rw [if_neg (by simp)]
    obtain ⟨front, room, unv, hr, hunv⟩ := hready rfl
    obtain ⟨c, hc, hfirst⟩ := hr.first
    obtain ⟨vecs, hvecs, hcount⟩ := readSetupVecs_room unv hr.length_le hr.space_pos hr.le_space
      fun _ => hr.needed
    have hdrop : b₁.chains.drop front.length = room ++ unv := by rw [hr.chains, List.drop_left]
    have htake : b₁.chains.take front.length = front := by rw [hr.chains, List.take_left]
    simp only [hc, Option.bind_some, hfirst, hdrop, htake, hvecs, hcount]
    cases readv with
    | none => exact ⟨-1, b₁, rfl, hfilled, by simp [hcontents], by simp⟩
    | some arrived =>
      by_cases hnil : arrived.take n = []
      · simp only [if_pos hnil]
        refine ⟨0, b₁, rfl, hfilled, by simp [hcontents], ?_⟩
        rintro bs - ⟨⟩
        rw [hnil]
        refine ⟨rfl, fun _ hle => ?_⟩
        rw [← List.length_eq_zero_iff, List.length_take] at hnil
        omega
      · simp only [if_neg hnil]
        have hle : (arrived.take n).length ≤ n := List.length_take_le _ _
        obtain ⟨touched, es', p, hcommit, hs, hbytes, hes⟩ :=
          hr.commit hfilled.length_contents hnil hle
        simp only [hcommit, Option.map_some, Option.getD_some]
        refine ⟨_, _, rfl, ⟨_, _, hs⟩, ?_, ?_⟩
        · rw [hs.contents, hbytes, hcontents, Int.toNat_natCast, List.length_take,
            ← List.take_eq_take_min]
        · rintro bs - ⟨⟩
          refine ⟨rfl, fun htight hlen => ?_⟩
          obtain rfl := hes (by rw [List.length_take]; omega)
          obtain rfl := hunv htight
          exact hs.tight

theorem Filled.read {b : Evbuffer} (h : b.Filled) (mem : Malloc) (readable : ℤ) {howmuch : ℤ}
    (hpos : howmuch ≠ 0) (readv : Option Bytes) :
    ∃ res b', b.read mem readable howmuch readv = some (res, b') ∧ b'.Filled ∧
      b'.contents = b.contents ++ (readv.getD []).take res.toNat ∧
      ∀ bs, mem.isSome → readv = some bs →
        res = ((bs.take (readSize readable howmuch)).length : ℤ) := by
  obtain ⟨fs, es, hs⟩ := h
  obtain ⟨res, b', heq, hf, hc, hres⟩ := hs.read mem readable hpos readv
  exact ⟨res, b', heq, hf, hc, fun bs hm hv => (hres bs hm hv).1⟩

theorem Tight.read {b : Evbuffer} (h : b.Tight) (mem : ℕ → UInt8) {readable howmuch : ℤ}
    (hpos : howmuch ≠ 0) {bs : Bytes} (hbs : readSize readable howmuch ≤ bs.length) :
    ∃ b', b.read (some mem) readable howmuch (some bs) =
        some ((readSize readable howmuch : ℤ), b') ∧ b'.Tight ∧
      b'.contents = b.contents ++ bs.take (readSize readable howmuch) := by
  obtain ⟨fs, es, hs, htight⟩ := h
  obtain ⟨res, b', heq, -, hc, hres⟩ := hs.read (some mem) readable hpos (some bs)
  obtain ⟨hres, ht⟩ := hres bs rfl rfl
  rw [List.length_take, Nat.min_eq_left hbs] at hres
  rw [hres] at heq hc
  exact ⟨b', heq, ht htight hbs, hc⟩

end Read

end Evbuffer

end EglComet
