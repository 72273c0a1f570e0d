import EglComet.Protobuf.ByteSize
import EglComet.Protobuf.Generated

/-!
What is written and read back. `SerializeToArray` is always called with the
result of `ByteSize`, and the peer runs the generated parser on the bytes it
finds there: the size is exact, and the parser returns the message. This holds
of every runtime that conforms and whose size functions are exact.
-/
namespace EglComet

open Protobuf MachineInt

section Sizes

variable (Z : Sizes)

/-- What a field adds to `total_size`, with one byte for its tag. -/
def sized {α : Type} (size : α → ℤ) (v : Option α) : List ℤ := (v.map fun x => 1 + size x).toList

/-- What a repeated field adds: its tags at once, then its entries. -/
def repeatedSize (bs : List Bytes) : List ℤ := (1 * (bs.length : ℤ)) :: bs.map Z.string

/-- The fields of one group of has-bits are visited only if one of the bits is set. -/
def guarded (present : Bool) (sizes : List ℤ) : List ℤ := if present then sizes else []

def C2SLogin.byteSize (m : C2SLogin) : ℤ :=
  totalSize (guarded (m.id.isSome || m.token.isSome || m.userAgent.isSome)
    (sized Z.int64 m.id ++ sized Z.string m.token ++ sized Z.string m.userAgent))

def S2CLogin.byteSize (m : S2CLogin) : ℤ :=
  totalSize (guarded (m.code.isSome || m.msg.isSome || m.pingTime.isSome)
    (sized Z.int32 m.code ++ sized Z.string m.msg ++ sized Z.int32 m.pingTime))

def OnlineStatus.byteSize (m : OnlineStatus) : ℤ :=
  totalSize (guarded m.status.isSome (sized Z.string m.status) ++ repeatedSize Z m.id)

def ReqCheckTokenByID.byteSize (m : ReqCheckTokenByID) : ℤ :=
  totalSize (guarded (m.id.isSome || m.token.isSome)
    (sized Z.int64 m.id ++ sized Z.string m.token))

def ReqCheckRelationByID.byteSize (m : ReqCheckRelationByID) : ℤ :=
  totalSize (guarded (m.fromID.isSome || m.toID.isSome)
    (sized Z.int64 m.fromID ++ sized Z.int64 m.toID))

/-- `ByteSize` of `RspCheckTokenByID` and of `RspCheckRelationByID`. -/
def RspCheck.byteSize (m : RspCheck) : ℤ :=
  totalSize (guarded (m.rescode.isSome || m.resmsg.isSome)
    (sized Z.int32 m.rescode ++ sized Z.string m.resmsg))

/-- The has-bits of the first eight fields are one group, those of the last three the other. -/
def ReqPacket.byteSize (m : ReqPacket) : ℤ :=
  totalSize (guarded (m.mask.isSome || m.udi.isSome || m.reqNo.isSome || m.chnNo.isSome ||
      m.chnPos.isSome || m.clientId.isSome)
    (sized Z.int32 m.mask ++ sized Z.string m.udi ++ sized Z.int32 m.reqNo ++
      sized Z.int32 m.chnNo ++ sized Z.int32 m.chnPos ++ sized Z.int32 m.clientId) ++
    guarded (m.clientPos.isSome || m.clientVer.isSome || m.rsaKeyVer.isSome)
      (sized Z.int32 m.clientPos ++ sized Z.string m.clientVer ++ sized Z.string m.rsaKeyVer) ++
    repeatedSize Z m.action ++ repeatedSize Z m.params)

def RspPacket.byteSize (m : RspPacket) : ℤ :=
  totalSize (guarded (m.mask.isSome || m.rescode.isSome || m.resmsg.isSome)
    (sized Z.int32 m.mask ++ sized Z.int32 m.rescode ++ sized Z.string m.resmsg) ++
    repeatedSize Z m.action ++ repeatedSize Z m.params)

end Sizes

/-- Values of the C++ types. -/
def Int32Range (v : Option ℤ) : Prop := ∀ x ∈ v, -2 ^ 31 ≤ x ∧ x < 2 ^ 31

def Int64Range (v : Option ℤ) : Prop := ∀ x ∈ v, -2 ^ 63 ≤ x ∧ x < 2 ^ 63

theorem sum_guarded {present : Bool} {sizes : List ℤ} (h : present = false → sizes = []) :
    (guarded present sizes).sum = sizes.sum := by
  cases present with
  | true => rfl
  | false => rw [h rfl]; rfl

section Parts

variable {σ M : Type} {R : Runtime σ} {unread : σ → Bytes} {Z : Sizes}
  {fields : List (Protobuf.Field M)}

/-- A part of a message: its bytes, if they are fewer than `2 ^ 31`, are as many as its sizes say,
and reading them has this effect. -/
def Part (R : Runtime σ) (unread : σ → Bytes) (fields : List (Protobuf.Field M)) (bs : Bytes)
    (sizes : List ℤ) (upd : M → M) : Prop :=
  bs.length < 2 ^ 31 → sizes.sum = bs.length ∧ Reads R unread fields bs upd

theorem Part.append {bs cs : Bytes} {sizes sizes' : List ℤ} {upd upd' : M → M}
    (h : Part R unread fields bs sizes upd) (h' : Part R unread fields cs sizes' upd') :
    Part R unread fields (bs ++ cs) (sizes ++ sizes') (upd' ∘ upd) := by
  intro hlen
  rw [List.length_append] at hlen
  obtain ⟨hs, hr⟩ := h (by omega)
  obtain ⟨hs', hr'⟩ := h' (by omega)
  exact ⟨by rw [List.sum_append, List.length_append, hs, hs']; rfl, hr.append hr'⟩

variable (C : R.Conforms unread) (hZ : Z.Exact R) (fields)

include C hZ

/-- An `int32` field, by its number, its setter and its value. -/
theorem Part.int32 (number : ℕ) (set : M → ℤ → M) (v : Option ℤ) (h0 : number ≠ 0)
    (hn : number < 16) (hf : Selects fields (number * 8) (.int32 number set))
    (hv : Int32Range v) :
    Part R unread fields (optInt32 R number v) (sized Z.int32 v) fun m => v.elim m (set m) := by
  intro _
  cases v with
  | none => exact ⟨rfl, Reads.nil⟩
  | some x =>
    refine ⟨?_, C.reads_int32 h0 (by omega) hf (hv x rfl)⟩
    simpa [sized, optInt32] using (hZ.int32 number x hn (hv x rfl)).symm

theorem Part.int64 (number : ℕ) (set : M → ℤ → M) (v : Option ℤ) (h0 : number ≠ 0)
    (hn : number < 16) (hf : Selects fields (number * 8) (.int64 number set))
    (hv : Int64Range v) :
    Part R unread fields (optInt64 R number v) (sized Z.int64 v) fun m => v.elim m (set m) := by
  intro _
  cases v with
  | none => exact ⟨rfl, Reads.nil⟩
  | some x =>
    refine ⟨?_, C.reads_int64 h0 (by omega) hf (hv x rfl)⟩
    simpa [sized, optInt64] using (hZ.int64 number x hn (hv x rfl)).symm

theorem length_writeString_eq_size {number : ℕ} (hn : number < 15) {b : Bytes}
    (hb : (R.writeString number b).length < 2 ^ 31) :
    b.length < 2 ^ 31 ∧ ((R.writeString number b).length : ℤ) = 1 + Z.string b := by
  have hlt : b.length < 2 ^ 31 := by
    rw [C.length_string hn] at hb
    omega
  exact ⟨hlt, hZ.string number b hn hlt⟩

theorem Part.string (number : ℕ) (get : M → Option Bytes) (set : M → Option Bytes → M)
    (b : Option Bytes) (hn : number < 15)
    (hf : Selects fields (number * 8 + 2) (singularString number get set))
    (hset : ∀ m x y, set (set m x) y = set m y) :
    Part R unread fields (optString R number b) (sized Z.string b)
      fun m => b.elim m fun x => set m (some x) := by
  intro hlen
  cases b with
  | none => exact ⟨rfl, Reads.nil⟩
  | some x =>
    obtain ⟨hx, hsize⟩ := length_writeString_eq_size C hZ hn hlen
    constructor
    · simpa [sized, optString] using hsize.symm
    · have hr := C.reads_string (b := x) (by omega) hf hx
      simp only [hset] at hr
      exact hr

theorem Part.repeated (number : ℕ) (get : M → List Bytes) (set : M → List Bytes → M)
    (bs : List Bytes) (hn : number < 15)
    (hf : Selects fields (number * 8 + 2) (repeatedString number get set))
    (hget : ∀ m x, get (set m x) = x) (hset : ∀ m x y, set (set m x) y = set m y)
    (hself : ∀ m, set m (get m) = m) :
    Part R unread fields (repString R number bs) (repeatedSize Z bs)
      fun m => set m (get m ++ bs) := by
  induction bs with
  | nil =>
    intro _
    refine ⟨rfl, ?_⟩
    simp only [List.append_nil, hself]
    exact Reads.nil
  | cons b bs ih =>
    intro hlen
    rw [repString_cons] at hlen ⊢
    rw [List.length_append] at hlen
    obtain ⟨hb, hsize⟩ := length_writeString_eq_size (b := b) C hZ hn (by omega)
    obtain ⟨hrest, hreads⟩ := ih (by omega)
    constructor
    · simp only [repeatedSize, List.sum_cons, List.map_cons, List.length_cons] at hrest ⊢
      rw [List.length_append]
      push_cast
      rw [hsize, ← hrest]
      ring
    · have hboth := (C.reads_string (by omega) hf hb).append hreads
      simpa [Function.comp_def, hget, hset] using hboth

end Parts

section Messages

variable {σ M : Type} {R : Runtime σ} {unread : σ → Bytes} {Z : Sizes}

/-- A message is written into exactly the bytes that `ByteSize` counts, and the generated parser
of the peer reads it back. -/
structure Faithful (S : Shortcuts R) (T : MessageType M) (endings : List Ending) (m : M)
    (bs : Bytes) (byteSize : ℤ) : Prop where
  size : byteSize = bs.length
  back : S.parseFromArray T endings bs = (m, T.isInitialized m)

variable (C : R.Conforms unread) (hZ : Z.Exact R) (S : Shortcuts R)

include C

theorem Part.faithful {T : MessageType M} {endings : List Ending} {m : M} {bs : Bytes}
    {sizes sizes' : List ℤ} {upd : M → M} (h : Part R unread T.fields bs sizes upd)
    (hn : endings.length = T.fields.length) (hl : Shortcuts.Linked (T.cases endings))
    (hs : sizes'.sum = sizes.sum) (hm : upd T.empty = m) (hlen : bs.length < 2 ^ 31) :
    Faithful S T endings m bs (totalSize sizes') := by
  obtain ⟨hsum, hreads⟩ := h hlen
  refine ⟨totalSize_of_lt (hs.trans hsum) hlen, ?_⟩
  rw [S.parseFromArray_eq hn hl, C.parse hreads, hm]

include hZ

theorem C2SLogin.faithful (m : C2SLogin) (hi : Int64Range m.id)
    (hlen : (m.serialize R).length < 2 ^ 31) :
    Faithful S c2sLogin c2sLoginEndings m (m.serialize R) (m.byteSize Z) := by
  have hparts : Part R unread c2sLogin.fields (m.serialize R) _ _ :=
    ((Part.int64 c2sLogin.fields C hZ 1 _ m.id (by decide) (by decide) rfl hi).append
      (Part.string c2sLogin.fields C hZ 2 _ _ m.token (by decide) rfl fun _ _ _ => rfl)).append
      (Part.string c2sLogin.fields C hZ 3 _ _ m.userAgent (by decide) rfl fun _ _ _ => rfl)
  apply hparts.faithful C S rfl (by decide) (sum_guarded _) _ hlen
  · cases m
    simp +contextual [sized]
  · rcases m with ⟨_ | _, _ | _, _ | _⟩ <;> rfl

theorem S2CLogin.faithful (m : S2CLogin) (hc : Int32Range m.code) (hp : Int32Range m.pingTime)
    (hlen : (m.serialize R).length < 2 ^ 31) :
    Faithful S s2cLogin s2cLoginEndings m (m.serialize R) (m.byteSize Z) := by
  have hparts : Part R unread s2cLogin.fields (m.serialize R) _ _ :=
    ((Part.int32 s2cLogin.fields C hZ 1 _ m.code (by decide) (by decide) rfl hc).append
      (Part.string s2cLogin.fields C hZ 2 _ _ m.msg (by decide) rfl fun _ _ _ => rfl)).append
      (Part.int32 s2cLogin.fields C hZ 3 _ m.pingTime (by decide) (by decide) rfl hp)
  apply hparts.faithful C S rfl (by decide) (sum_guarded _) _ hlen
  · cases m
    simp +contextual [sized]
  · rcases m with ⟨_ | _, _ | _, _ | _⟩ <;> rfl

theorem OnlineStatus.faithful (m : OnlineStatus) (hlen : (m.serialize R).length < 2 ^ 31) :
    Faithful S onlineStatus onlineStatusEndings m (m.serialize R) (m.byteSize Z) := by
  have hparts : Part R unread onlineStatus.fields (m.serialize R) _ _ :=
    (Part.repeated onlineStatus.fields C hZ 1 _ _ m.id (by decide) rfl (fun _ _ => rfl)
      (fun _ _ _ => rfl) fun _ => rfl).append
      (Part.string onlineStatus.fields C hZ 2 _ _ m.status (by decide) rfl fun _ _ _ => rfl)
  apply hparts.faithful C S rfl (by decide) _ _ hlen
  · rw [List.sum_append, List.sum_append, sum_guarded, add_comm]
    cases m
    simp +contextual [sized]
  · rcases m with ⟨_, _ | _⟩ <;> rfl

theorem ReqCheckTokenByID.faithful (m : ReqCheckTokenByID) (hi : Int64Range m.id)
    (hlen : (m.serialize R).length < 2 ^ 31) :
    Faithful S reqCheckTokenByID reqCheckTokenByIDEndings m (m.serialize R) (m.byteSize Z) := by
  have hparts : Part R unread reqCheckTokenByID.fields (m.serialize R) _ _ :=
    (Part.int64 reqCheckTokenByID.fields C hZ 1 _ m.id (by decide) (by decide) rfl hi).append
      (Part.string reqCheckTokenByID.fields C hZ 2 _ _ m.token (by decide) rfl fun _ _ _ => rfl)
  apply hparts.faithful C S rfl (by decide) (sum_guarded _) _ hlen
  · cases m
    simp +contextual [sized]
  · rcases m with ⟨_ | _, _ | _⟩ <;> rfl

theorem ReqCheckRelationByID.faithful (m : ReqCheckRelationByID) (hf : Int64Range m.fromID)
    (ht : Int64Range m.toID) (hlen : (m.serialize R).length < 2 ^ 31) :
    Faithful S reqCheckRelationByID reqCheckRelationByIDEndings m (m.serialize R)
      (m.byteSize Z) := by
  have hparts : Part R unread reqCheckRelationByID.fields (m.serialize R) _ _ :=
    (Part.int64 reqCheckRelationByID.fields C hZ 1 _ m.fromID (by decide) (by decide) rfl
      hf).append
      (Part.int64 reqCheckRelationByID.fields C hZ 2 _ m.toID (by decide) (by decide) rfl ht)
  apply hparts.faithful C S rfl (by decide) (sum_guarded _) _ hlen
  · cases m
    simp +contextual [sized]
  · rcases m with ⟨_ | _, _ | _⟩ <;> rfl

/-- `RspCheckTokenByID` and `RspCheckRelationByID` have the same fields and the same endings. -/
theorem RspCheck.faithful (m : RspCheck) (hr : Int32Range m.rescode)
    (hlen : (m.serialize R).length < 2 ^ 31) :
    Faithful S rspCheck rspCheckTokenByIDEndings m (m.serialize R) (m.byteSize Z) := by
  have hparts : Part R unread rspCheck.fields (m.serialize R) _ _ :=
    (Part.int32 rspCheck.fields C hZ 1 _ m.rescode (by decide) (by decide) rfl hr).append
      (Part.string rspCheck.fields C hZ 2 _ _ m.resmsg (by decide) rfl fun _ _ _ => rfl)
  apply hparts.faithful C S rfl (by decide) (sum_guarded _) _ hlen
  · cases m
    simp +contextual [sized]
  · rcases m with ⟨_ | _, _ | _⟩ <;> rfl

theorem RspPacket.faithful (m : RspPacket) (hm : Int32Range m.mask) (hr : Int32Range m.rescode)
    (hlen : (m.serialize R).length < 2 ^ 31) :
    Faithful S rspPacket rspPacketEndings m (m.serialize R) (m.byteSize Z) := by
  have hparts : Part R unread rspPacket.fields (m.serialize R) _ _ :=
    ((((Part.int32 rspPacket.fields C hZ 1 _ m.mask (by decide) (by decide) rfl hm).append
      (Part.int32 rspPacket.fields C hZ 2 _ m.rescode (by decide) (by decide) rfl hr)).append
      (Part.string rspPacket.fields C hZ 3 _ _ m.resmsg (by decide) rfl fun _ _ _ => rfl)).append
      (Part.repeated rspPacket.fields C hZ 4 _ _ m.action (by decide) rfl (fun _ _ => rfl)
        (fun _ _ _ => rfl) fun _ => rfl)).append
      (Part.repeated rspPacket.fields C hZ 5 _ _ m.params (by decide) rfl (fun _ _ => rfl)
        (fun _ _ _ => rfl) fun _ => rfl)
  apply hparts.faithful C S rfl (by decide) _ _ hlen
  · rw [List.sum_append, List.sum_append, List.sum_append, List.sum_append, sum_guarded]
    cases m
    simp +contextual [sized]
  · rcases m with ⟨_ | _, _ | _, _ | _, _, _⟩ <;> rfl

theorem ReqPacket.faithful (m : ReqPacket) (hm : Int32Range m.mask) (hr : Int32Range m.reqNo)
    (hn : Int32Range m.chnNo) (hp : Int32Range m.chnPos) (hc : Int32Range m.clientId)
    (hcp : Int32Range m.clientPos) (hlen : (m.serialize R).length < 2 ^ 31) :
    Faithful S reqPacket reqPacketEndings m (m.serialize R) (m.byteSize Z) := by
  have hparts : Part R unread reqPacket.fields (m.serialize R) _ _ :=
    ((((((((((Part.int32 reqPacket.fields C hZ 1 _ m.mask (by decide) (by decide) rfl hm).append
      (Part.string reqPacket.fields C hZ 2 _ _ m.udi (by decide) rfl fun _ _ _ => rfl)).append
      (Part.repeated reqPacket.fields C hZ 3 _ _ m.action (by decide) rfl (fun _ _ => rfl)
        (fun _ _ _ => rfl) fun _ => rfl)).append
      (Part.repeated reqPacket.fields C hZ 4 _ _ m.params (by decide) rfl (fun _ _ => rfl)
        (fun _ _ _ => rfl) fun _ => rfl)).append
      (Part.int32 reqPacket.fields C hZ 5 _ m.reqNo (by decide) (by decide) rfl hr)).append
      (Part.int32 reqPacket.fields C hZ 6 _ m.chnNo (by decide) (by decide) rfl hn)).append
      (Part.int32 reqPacket.fields C hZ 7 _ m.chnPos (by decide) (by decide) rfl hp)).append
      (Part.int32 reqPacket.fields C hZ 8 _ m.clientId (by decide) (by decide) rfl hc)).append
      (Part.int32 reqPacket.fields C hZ 9 _ m.clientPos (by decide) (by decide) rfl hcp)).append
      (Part.string reqPacket.fields C hZ 10 _ _ m.clientVer (by decide) rfl
        fun _ _ _ => rfl)).append
      (Part.string reqPacket.fields C hZ 11 _ _ m.rsaKeyVer (by decide) rfl fun _ _ _ => rfl)
  apply hparts.faithful C S rfl (by decide) _ _ hlen
  · rw [List.sum_append, List.sum_append, List.sum_append, sum_guarded, sum_guarded]
    · simp only [List.sum_append]
      ring
    · cases m
      simp +contextual [sized]
    · cases m
      simp +contextual [sized]
  · rcases m with
      ⟨_ | _, _ | _, _, _, _ | _, _ | _, _ | _, _ | _, _ | _, _ | _, _ | _⟩ <;> rfl

end Messages

/-- For every library that conforms and whose sizes are exact: each message that the server or one
of its peers writes, as long as it is shorter than `2 ^ 31` bytes, takes exactly the bytes that
`ByteSize` asks for, and the generated parser of the other side returns it field by field. -/
theorem messages_faithful {σ : Type} {R : Runtime σ} {unread : σ → Bytes} {Z : Sizes}
    (C : R.Conforms unread) (hZ : Z.Exact R) (S : Shortcuts R) :
    (∀ m : C2SLogin, Int64Range m.id → (m.serialize R).length < 2 ^ 31 →
      Faithful S c2sLogin c2sLoginEndings m (m.serialize R) (m.byteSize Z)) ∧
    (∀ m : S2CLogin, Int32Range m.code → Int32Range m.pingTime →
      (m.serialize R).length < 2 ^ 31 →
        Faithful S s2cLogin s2cLoginEndings m (m.serialize R) (m.byteSize Z)) ∧
    (∀ m : OnlineStatus, (m.serialize R).length < 2 ^ 31 →
      Faithful S onlineStatus onlineStatusEndings m (m.serialize R) (m.byteSize Z)) ∧
    (∀ m : ReqCheckTokenByID, Int64Range m.id → (m.serialize R).length < 2 ^ 31 →
      Faithful S reqCheckTokenByID reqCheckTokenByIDEndings m (m.serialize R) (m.byteSize Z)) ∧
    (∀ m : ReqCheckRelationByID, Int64Range m.fromID → Int64Range m.toID →
      (m.serialize R).length < 2 ^ 31 →
        Faithful S reqCheckRelationByID reqCheckRelationByIDEndings m (m.serialize R)
          (m.byteSize Z)) ∧
    (∀ m : ReqPacket, Int32Range m.mask → Int32Range m.reqNo → Int32Range m.chnNo →
      Int32Range m.chnPos → Int32Range m.clientId → Int32Range m.clientPos →
        (m.serialize R).length < 2 ^ 31 →
          Faithful S reqPacket reqPacketEndings m (m.serialize R) (m.byteSize Z)) ∧
    (∀ m : RspPacket, Int32Range m.mask → Int32Range m.rescode →
      (m.serialize R).length < 2 ^ 31 →
        Faithful S rspPacket rspPacketEndings m (m.serialize R) (m.byteSize Z)) ∧
    ∀ m : RspCheck, Int32Range m.rescode → (m.serialize R).length < 2 ^ 31 →
      Faithful S rspCheckTokenByID rspCheckTokenByIDEndings m (m.serialize R) (m.byteSize Z) ∧
        Faithful S rspCheckRelationByID rspCheckRelationByIDEndings m (m.serialize R)
          (m.byteSize Z) :=
  ⟨C2SLogin.faithful C hZ S, S2CLogin.faithful C hZ S, OnlineStatus.faithful C hZ S,
    ReqCheckTokenByID.faithful C hZ S, ReqCheckRelationByID.faithful C hZ S,
    ReqPacket.faithful C hZ S, RspPacket.faithful C hZ S,
    fun m hr hlen => ⟨RspCheck.faithful C hZ S m hr hlen, RspCheck.faithful C hZ S m hr hlen⟩⟩

/-- A login that the runtime over flat arrays writes comes back. -/
theorem wire_login_faithful :
    Faithful Wire.shortcuts c2sLogin c2sLoginEndings ⟨some 7, some [0x74], none⟩
      ((⟨some 7, some [0x74], none⟩ : C2SLogin).serialize Wire.runtime)
      ((⟨some 7, some [0x74], none⟩ : C2SLogin).byteSize Wire.sizes) :=
  (messages_faithful Wire.conforms (Wire.sizes_exact Wire.conforms.toWriters) Wire.shortcuts).1 _
    (by simp [Int64Range]) (by decide)

-- A negative code takes ten bytes.
example : (⟨some (-1), some [0x6f, 0x6b], some 60⟩ : S2CLogin).byteSize Wire.sizes = 17 := by decide

end EglComet
