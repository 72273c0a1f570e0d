import EglComet.AnalyseReq.SocketStream
import EglComet.Client.ConnThread

/-!
What the server makes of what a client sends. The frames that a thread of clients
appends to the output of one connection (its login, heartbeats and songs) are
well formed, so the server recognises them one by one however they arrive, with
the id, the token and the song that the client put in.
-/
namespace EglComet

open Protobuf MachineInt

namespace Client

/-- A frame with the ids of its sender and its receiver in a 20-byte header. -/
def relayFrame (id toId : UInt64) (propertyId : ℕ) (src : Bytes) : Bytes :=
  [0x15, 0x40, 0x0, 0x0] ++ netId id ++ netId toId ++ netShort propertyId ++ [0x01] ++
    (netShort src.length ++ src)

@[simp] theorem length_netId (id : UInt64) : (netId id).length = 8 := rfl

/-- The lowest `k` bytes of a number, the highest first. -/
theorem bigEndian_digits (n k : ℕ) :
    bigEndian ((List.range k).map fun i => UInt8.ofNat (n / 256 ^ (k - 1 - i))) = n % 256 ^ k := by
  induction k generalizing n with
  | zero => simp [bigEndian, Nat.mod_one]
  | succ k ih =>
    have hhigh : (List.range k).map (fun i => UInt8.ofNat (n / 256 ^ (k + 1 - 1 - i))) =
        (List.range k).map fun i => UInt8.ofNat (n / 256 / 256 ^ (k - 1 - i)) := by
      apply List.map_congr_left
      intro i hi
      have hi' := List.mem_range.mp hi
      rw [Nat.div_div_eq_div_mul, ← Nat.pow_succ']
      congr 3
      omega
    have hlow : UInt8.ofNat (n / 256 ^ (k + 1 - 1 - k)) = UInt8.ofNat n := by simp
    rw [List.range_succ, List.map_append, List.map_singleton, hhigh, hlow, bigEndian,
      List.foldl_append]
    have hsplit : n % 256 ^ (k + 1) = n % 256 + 256 * (n / 256 % 256 ^ k) := by
      rw [Nat.pow_succ', Nat.mod_mul]
    show bigEndian _ * 256 + (UInt8.ofNat n).toNat = _
    rw [ih, UInt8.toNat_ofNat', hsplit, Nat.add_comm, Nat.mul_comm]

theorem bigEndian_netId (id : UInt64) : bigEndian (netId id) = id.toNat :=
  (bigEndian_digits id.toNat 8).trans (Nat.mod_eq_of_lt id.toNat_lt)

section Arrays

variable {σ : Type} (R : Runtime σ)

theorem getLoginData_eq {id : UInt64} {token : Bytes}
    (h : (loginRequest R id token).length ≤ 0xFF00) (data : ℕ → UInt8) :
    getLoginData R id token data = frameOf (data 2) 10 (loginRequest R id token) := by
  have hfield : lengthField (loginRequest R id token).length =
      netShort (loginRequest R id token).length := if_neg (by omega)
  have hsize : 25 + (loginRequest R id token).length =
      23 + (netShort (loginRequest R id token).length ++ loginRequest R id token).length := by
    rw [List.length_append]
    exact Nat.add_assoc 23 2 _
  unfold getLoginData frameOf
  simp only [hfield, hsize]
  rw [map_range_append]
  · rfl
  · intro i hi
    iterate 7 rw [blit_head _ (by decide)]
    have hjoin := blit_blit data 23 (netShort (loginRequest R id token).length)
      (loginRequest R id token)
    exact (congrFun hjoin (23 + i)).trans (blit_inside _ hi)

/-- The bytes of the array that no turn of the loop writes are as before the loop. -/
def Headed (data : ℕ → UInt8) : Prop := ∀ i, i < 4 ∨ 20 ≤ i ∧ i < 23 → data i = sendHead i

/-- The array after a turn that sends a payload. -/
def filled (data : ℕ → UInt8) (id toId : UInt64) (payload : Bytes) : ℕ → UInt8 :=
  blit (blit (blit (blit data 25 payload) 23 (netShort payload.length)) 4 (netId id)) 12
    (netId toId)

variable {data : ℕ → UInt8} {id toId : UInt64} {payload : Bytes}

theorem Headed.filled (h : Headed data) : Headed (filled data id toId payload) := by
  intro i hi
  have hshort : (netShort payload.length).length = 2 := rfl
  have hid := length_netId id
  have hto := length_netId toId
  rw [Client.filled, blit_outside _ (by omega), blit_outside _ (by omega),
    blit_outside _ (by omega), blit_outside _ (by omega), h i hi]

/-- The length field and the payload, which are written in the other order. -/
theorem filled_payload {i : ℕ} (hi : i < (netShort payload.length ++ payload).length) :
    filled data id toId payload (23 + i) = byteAt (netShort payload.length ++ payload) i := by
  have hn : (netShort payload.length).length = 2 := rfl
  rw [filled, blit_head _ (by rw [length_netId]; decide),
    blit_head _ (by rw [length_netId]; decide)]
  by_cases hi2 : i < 2
  · rw [blit_inside _ hi2, byteAt_append _ hi2]
  · obtain ⟨k, rfl⟩ := Nat.exists_eq_add_of_le (not_lt.mp hi2)
    rw [List.length_append, hn] at hi
    rw [blit_outside _ (by omega), ← Nat.add_assoc, blit_inside _ (by omega)]
    exact (byteAt_append_right _ _ k).symm

/-- Every byte of the frame that a turn sends was written before the loop or by this turn. -/
theorem Headed.frame (h : Headed data) :
    (List.range (25 + payload.length)).map (Client.filled data id toId payload) =
      relayFrame id toId 22 payload := by
  have hf : Headed (Client.filled data id toId payload) := h.filled
  have hfirst : (List.range 4).map (Client.filled data id toId payload) =
      [0x15, 0x40, 0x0, 0x0] := by
    have hkept : ∀ i ∈ List.range 4, Client.filled data id toId payload i = sendHead i :=
      fun i hi => hf i (Or.inl (List.mem_range.mp hi))
    rw [List.map_congr_left hkept]
    decide
  have hid : ∀ i < (netId id).length,
      Client.filled data id toId payload (4 + i) = byteAt (netId id) i := by
    intro i hi
    have hi8 : i < 8 := hi
    rw [Client.filled, blit_outside _ (by omega), blit_inside _ hi]
  have hto : ∀ i < (netId toId).length,
      Client.filled data id toId payload (12 + i) = byteAt (netId toId) i :=
    fun i hi => blit_inside _ hi
  have hkind : ∀ i < (netShort 22 ++ [0x01]).length,
      Client.filled data id toId payload (20 + i) = byteAt (netShort 22 ++ [0x01]) i := by
    intro i hi
    have hi3 : i < 3 := hi
    have hkept : ∀ i < 3, sendHead (20 + i) = byteAt (netShort 22 ++ [0x01]) i := by decide
    rw [hf _ (by omega), hkept i hi]
  -- the array up to 12, 20 and 23, each from the part before it
  have hids : (List.range 20).map (Client.filled data id toId payload) =
      [0x15, 0x40, 0x0, 0x0] ++ netId id ++ netId toId := by
    rw [← hfirst]
    exact (map_range_append hto).trans (congrArg (· ++ netId toId) (map_range_append hid))
  have hhead : (List.range 23).map (Client.filled data id toId payload) =
      (List.range 20).map (Client.filled data id toId payload) ++ (netShort 22 ++ [0x01]) :=
    map_range_append hkind
  have hsize : 25 + payload.length = 23 + (netShort payload.length ++ payload).length := by
    rw [List.length_append]
    exact Nat.add_assoc 23 2 payload.length
  rw [hsize, map_range_append fun i hi => filled_payload hi, hhead, hids, ← List.append_assoc]
  rfl

/-- What `send_callback` sends for each client does not depend on the turns before. -/
theorem sendLoop_eq (time : UInt64 → Bytes) (h : Headed data) (ids : List UInt64) :
    sendLoop R time data ids = ids.flatMap fun id =>
      if songTo id ≠ id then [(id, relayFrame id (songTo id) 22 (songPayload R id (time id)))]
      else [] := by
  induction ids generalizing data with
  | nil => rfl
  | cons id ids ih =>
    rw [sendLoop, List.flatMap_cons]
    by_cases hto : songTo id ≠ id
    · have hturn : sendTurn R data id (time id) =
          (Client.filled data id (songTo id) (songPayload R id (time id)),
            some (relayFrame id (songTo id) 22 (songPayload R id (time id)))) := by
        rw [sendTurn, if_pos hto, ← h.frame]
        rfl
      simp only [hturn, if_pos hto, Option.map_some, Option.toList_some]
      rw [ih h.filled]
    · have hturn : sendTurn R data id (time id) = (data, none) := if_neg hto
      simp only [hturn, if_neg hto, Option.map_none, Option.toList_none]
      rw [ih h]

theorem sendCallback_eq (time : UInt64 → Bytes) (ids : List UInt64) :
    sendCallback R time ids = ids.flatMap fun id =>
      if songTo id ≠ id then [(id, relayFrame id (songTo id) 22 (songPayload R id (time id)))]
      else [] :=
  sendLoop_eq R time (fun _ _ => rfl) ids

end Arrays

section Events

variable {σ : Type} (R : Runtime σ) (token : UInt64 → Bytes) (id : UInt64)

/-- The frames that a callback of the thread appends to the output of client `id`. -/
def emitted : ThreadEvent → List Bytes
  | .connected id' mem => if id' = id then [getLoginData R id (token id) mem] else []
  | .heart => [heartBag]
  | .send time =>
    if songTo id ≠ id then [relayFrame id (songTo id) 22 (songPayload R id (time id))] else []

/-- The entries of one client among those of all. -/
theorem filterMap_flatMap_of_mem {ids : List UInt64} (hids : ids.Nodup) (hid : id ∈ ids)
    (g : UInt64 → List Bytes) :
    (ids.flatMap fun i => (g i).map (Prod.mk i)).filterMap
      (fun p => if p.1 = id then some p.2 else none) = g id := by
  have hnone : ∀ {ids : List UInt64}, id ∉ ids →
      (ids.flatMap fun i => (g i).map (Prod.mk i)).filterMap
        (fun p => if p.1 = id then some p.2 else none) = [] := by
    intro ids hn
    simp only [List.filterMap_eq_nil_iff, List.mem_flatMap, List.mem_map]
    rintro p ⟨i, hi, b, -, rfl⟩
    have hne : i ≠ id := fun h => hn (h ▸ hi)
    exact if_neg hne
  induction ids with
  | nil => exact absurd hid List.not_mem_nil
  | cons i ids ih =>
    obtain ⟨hi, hrest⟩ := List.nodup_cons.mp hids
    rw [List.flatMap_cons, List.filterMap_append]
    by_cases h : i = id
    · subst h
      rw [hnone hi, List.append_nil, List.filterMap_map]
      simp
    · have hmem : id ∈ ids := (List.mem_cons.mp hid).resolve_left (Ne.symm h)
      rw [ih hrest hmem, List.filterMap_map]
      simp [h]

theorem outputOf_eq {ids : List UInt64} (hids : ids.Nodup) (hid : id ∈ ids)
    (es : List ThreadEvent) : outputOf R ids token es id = es.flatMap (emitted R token id) := by
  unfold outputOf
  rw [List.filterMap_flatMap]
  congr 1
  funext e
  cases e with
  | connected id' mem =>
    by_cases h : id' = id
    · subst h
      simp [appended, emitted]
    · simp [appended, emitted, h]
  | heart =>
    have hall : appended R ids token .heart = ids.flatMap fun i => [heartBag].map (Prod.mk i) := by
      simp [appended, List.map_eq_flatMap]
    rw [hall, filterMap_flatMap_of_mem id hids hid]
    rfl
  | send time =>
    have hall : appended R ids token (.send time) = ids.flatMap fun i =>
        (if songTo i ≠ i then [relayFrame i (songTo i) 22 (songPayload R i (time i))] else []).map
          (Prod.mk i) := by
      rw [appended, sendCallback_eq]
      congr 1
      funext i
      split_ifs <;> rfl
    rw [hall, filterMap_flatMap_of_mem id hids hid]
    rfl

end Events

section Server

variable {σ : Type} (R : Runtime σ)

/-- The requests of a client fit into the arrays of the client. -/
def Fits (token : UInt64 → Bytes) (id : UInt64) : ThreadEvent → Prop
  | .connected _ _ => 25 + (loginRequest R id (token id)).length ≤ 512
  | .heart => True
  | .send time => 25 + (songPayload R id (time id)).length ≤ 1024

/-- What the server is to make of what a callback appends for client `id`. -/
def meaning (token : UInt64 → Bytes) (id : UInt64) : ThreadEvent → List Recognised
  | .connected id' mem =>
    if id' = id then
      [⟨getLoginData R id (token id) mem, [], some { id, token := token id }, none⟩]
    else []
  | .heart => [⟨heartBag, heartBag, none, none⟩]
  | .send time =>
    if songTo id ≠ id then
      let f := relayFrame id (songTo id) 22 (songPayload R id (time id))
      [⟨f, [], none, some { fromId := id, toId := songTo id, dataSize := f.length, data := f }⟩]
    else []

variable {R} {unread : σ → Bytes} {token : Bytes} {id toId : UInt64}

theorem signedId_range (id : UInt64) : Int64Range (some (signedId id)) := by
  intro x hx
  obtain rfl := Option.some.inj hx
  unfold signedId
  constructor
  · exact Int.le_bmod (by decide)
  · exact Int.bmod_lt (by decide)

theorem ofNat_signedId (id : UInt64) : UInt64.ofNat (signedId id % 2 ^ 64).toNat = id := by
  have hlt : (id.toNat : ℤ) < 2 ^ 64 := by exact_mod_cast id.toNat_lt
  have hmod : signedId id % 2 ^ 64 = id.toNat := by
    have hwrap : signedId id % ((2 ^ 64 : ℕ) : ℤ) = id.toNat % ((2 ^ 64 : ℕ) : ℤ) := Int.bmod_emod
    exact hwrap.trans (Int.emod_eq_of_lt (by omega) hlt)
  rw [hmod, Int.toNat_natCast, UInt64.ofNat_toNat]

theorem parse_loginRequest (C : R.Conforms unread) (h : (loginRequest R id token).length < 2 ^ 31) :
    c2sLogin.parseFromArray R (loginRequest R id token) =
      ({ id := some (signedId id), token := some token }, true) := by
  have hback := (C2SLogin.faithful C (Wire.sizes_exact C.toWriters) (.never R)
    { id := some (signedId id), token := some token } (signedId_range id) h).back
  rwa [Shortcuts.parseFromArray_eq _ rfl (by decide)] at hback

theorem loginOf_of_parse {data : Bytes} {x : ℤ}
    (hparse : (c2sLogin.parseFromArray R data).1 = { id := some x, token := some token })
    (hid : UInt64.ofNat (x % 2 ^ 64).toNat = id) : loginOf R data = { id, token } := by
  subst hid
  rw [loginOf, hparse]
  rfl

theorem loginOf_loginRequest (C : R.Conforms unread)
    (h : (loginRequest R id token).length < 2 ^ 31) :
    loginOf R (loginRequest R id token) = { id, token } :=
  loginOf_of_parse (congrArg Prod.fst (parse_loginRequest C h)) (ofNat_signedId id)

/-- Every login request has an id, so it is not empty. -/
theorem length_loginRequest_pos (W : R.Writers) (id : UInt64) (token : Bytes) :
    0 < (loginRequest R id token).length := by
  have hfirst : loginRequest R id token =
      R.writeInt64 1 (signedId id) ++ (R.writeString 2 token ++ []) := by
    rw [← List.append_assoc]
    rfl
  rw [hfirst, List.length_append, W.int64, Wire.length_writeInt (by decide)]
  omega

theorem headLen_loginFrame (ttl : UInt8) (src : Bytes) : headLen (frameOf ttl 10 src) = 20 := by
  simpa using headLen_frameOf ttl 10 src []

theorem propertyOf_loginFrame (ttl : UInt8) (src : Bytes) :
    propertyOf (frameOf ttl 10 src) = 10 := by
  have hhigh : byteAt (frameOf ttl 10 src) 20 = 0 := rfl
  have hlow : byteAt (frameOf ttl 10 src) (20 + 1) = 10 := rfl
  rw [propertyOf, headLen_loginFrame, hhigh, hlow]
  decide

/-- The second byte of a login frame has no bit set. -/
theorem byteAt_loginFrame (ttl : UInt8) (src : Bytes) : byteAt (frameOf ttl 10 src) 1 = 0 := rfl

theorem wellFormed_loginFrame (ttl : UInt8) {src : Bytes} (h1 : 1 ≤ src.length)
    (h : src.length < 0xFF00) : WellFormed (frameOf ttl 10 src) := by
  have hhead := headLen_loginFrame ttl src
  have hlen : (frameOf ttl 10 src).length = 25 + src.length := by
    rw [length_frameOf, length_lengthField, if_neg (by omega)]
  have hfield : ((frameOf ttl 10 src).drop 23).take 2 = netShort src.length := by
    have hd := drop_frameOf ttl 10 src [] 0
    simp only [List.append_nil, List.drop_zero] at hd
    rw [hd, lengthField, if_neg (by omega)]
    rfl
  refine Or.inr ⟨5, src.length, ?_⟩
  constructor
  · rw [byteAt_loginFrame]
    decide
  · refine Or.inl ⟨rfl, ?_, by omega⟩
    rw [hhead, hfield, bigEndian_netShort (by omega)]
  · exact h1
  · rw [hlen, hhead]
  · rw [hlen]
    omega
  · intro hbit
    rw [byteAt_loginFrame] at hbit
    exact absurd hbit (by decide)
  · intro _
    rw [propertyOf_loginFrame]
    decide

theorem recognition_loginFrame (ttl : UInt8) {src : Bytes} (h : src.length < 0xFF00) :
    recognition R (frameOf ttl 10 src) =
      ⟨frameOf ttl 10 src, [], some (loginOf R src), none⟩ := by
  have hdata := dataHeadLen_frameOf ttl 10 src [] (by omega)
  rw [List.append_nil, length_lengthField, if_neg (by omega)] at hdata
  rw [recognition, byteAt_loginFrame, if_neg (by decide), if_neg (by decide),
    if_pos (propertyOf_loginFrame ttl src), headLen_loginFrame, hdata,
    drop_frameOf_short ttl 10 (by omega)]

theorem length_relayFrame (id toId : UInt64) (propertyId : ℕ) (src : Bytes) :
    (relayFrame id toId propertyId src).length = 25 + src.length := by
  simp [relayFrame, netShort]
  omega

theorem wellFormed_relayFrame (propertyId : ℕ) {src : Bytes} (h1 : 1 ≤ src.length)
    (h : src.length < 0xFF00) : WellFormed (relayFrame id toId propertyId src) := by
  have hfirst : byteAt (relayFrame id toId propertyId src) 0 = 0x15 := rfl
  have hhead : headLen (relayFrame id toId propertyId src) = 20 := by
    rw [headLen, hfirst]
    decide
  have hbyte : byteAt (relayFrame id toId propertyId src) 1 = 0x40 := rfl
  have hlen := length_relayFrame id toId propertyId src
  have hdrop : ((relayFrame id toId propertyId src).drop 23).take 2 = netShort src.length := rfl
  refine Or.inr ⟨5, src.length, ?_⟩
  constructor
  · rw [hbyte]
    decide
  · refine Or.inl ⟨rfl, ?_, by omega⟩
    rw [hhead, hdrop, bigEndian_netShort (by omega)]
  · exact h1
  · rw [hlen, hhead]
  · rw [hlen]
    omega
  · intro _
    rw [hlen]
    omega
  · intro hbit
    rw [hbyte] at hbit
    exact absurd hbit (by decide)

theorem recognition_relayFrame (propertyId : ℕ) (src : Bytes) :
    recognition R (relayFrame id toId propertyId src) =
      ⟨relayFrame id toId propertyId src, [], none, some
        { fromId := id
          toId
          dataSize := (relayFrame id toId propertyId src).length
          data := relayFrame id toId propertyId src }⟩ := by
  have hbyte : byteAt (relayFrame id toId propertyId src) 1 = 0x40 := rfl
  have hfrom : ((relayFrame id toId propertyId src).drop 4).take 8 = netId id := rfl
  have hto : ((relayFrame id toId propertyId src).drop 12).take 8 = netId toId := rfl
  rw [recognition, hbyte, if_neg (by decide), if_pos (by decide), hfrom, hto, bigEndian_netId,
    bigEndian_netId, UInt64.ofNat_toNat, UInt64.ofNat_toNat]

theorem Song.parse (C : R.Conforms unread) {m : Song} (hm : Int32Range m.source)
    (hlen : (m.serialize R).length < 2 ^ 31) :
    (song.parseFromArray R (m.serialize R)).1 = m := by
  have hZ := Wire.sizes_exact C.toWriters
  have hparts : Part R unread song.fields (m.serialize R) _ _ :=
    ((((Part.string song.fields C hZ 1 _ _ m.songId (by decide) rfl fun _ _ _ => rfl).append
      (Part.string song.fields C hZ 2 _ _ m.songName (by decide) rfl fun _ _ _ => rfl)).append
      (Part.int32 song.fields C hZ 3 _ m.source (by decide) (by decide) rfl hm)).append
      (Part.string song.fields C hZ 4 _ _ m.singers (by decide) rfl fun _ _ _ => rfl)).append
      (Part.string song.fields C hZ 5 _ _ m.picUrl (by decide) rfl fun _ _ _ => rfl)
  rw [C.parse (hparts hlen).2]
  rcases m with ⟨_ | _, _ | _, _ | _, _ | _, _ | _⟩ <;> rfl

/-- A song is shown with its sender by the client that it is forwarded to. -/
theorem report_relayFrame (C : R.Conforms unread) {m : Song} (hm : Int32Range m.source)
    (hlen : (m.serialize R).length < 2 ^ 31) :
    report R (relayFrame id toId 22 (m.serialize R)) = .song id m := by
  have hproperty : bigEndian
      (((relayFrame id toId 22 (m.serialize R)).drop 20).take 2) = 22 := rfl
  have hfrom : ((relayFrame id toId 22 (m.serialize R)).drop 4).take 8 = netId id := rfl
  have hpayload : (relayFrame id toId 22 (m.serialize R)).drop 25 =
      m.serialize R := rfl
  simp only [report, hproperty, hfrom, hpayload, Song.parse C hm hlen, bigEndian_netId,
    UInt64.ofNat_toNat]
  rfl

theorem length_songPayload_pos (W : R.Writers) (id : UInt64) (time : Bytes) :
    0 < (songPayload R id time).length := by
  have htitle : 0 < (optString R 1 (songOf id (songTo id) time).songId).length := by
    show 0 < (R.writeString 1 _).length
    rw [W.length_string (by decide)]
    omega
  rw [songPayload, Song.serialize]
  simp only [List.length_append]
  omega

/-- Each frame that a callback appends is well formed, and the server makes of it what it means. -/
theorem recognition_emitted (C : R.Conforms unread) {token : UInt64 → Bytes} {e : ThreadEvent}
    (h : Fits R token id e) :
    (∀ f ∈ emitted R token id e, WellFormed f ∧ f.length + 4096 ≤ 2 ^ 31) ∧
      (emitted R token id e).map (recognition R) = meaning R token id e := by
  cases e with
  | connected id' mem =>
    have hfit : 25 + (loginRequest R id (token id)).length ≤ 512 := h
    have heq : getLoginData R id (token id) mem =
        frameOf (mem 2) 10 (loginRequest R id (token id)) :=
      getLoginData_eq R (by omega) mem
    by_cases hid : id' = id
    · simp only [emitted, meaning, if_pos hid, List.mem_singleton, forall_eq, List.map_singleton,
        heq]
      refine ⟨⟨wellFormed_loginFrame _ (length_loginRequest_pos C.toWriters _ _) (by omega), ?_⟩,
        ?_⟩
      · rw [length_frameOf, length_lengthField, if_neg (by omega)]
        omega
      · rw [recognition_loginFrame _ (by omega), loginOf_loginRequest C (by omega)]
    · simp [emitted, meaning, hid]
  | heart =>
    have hheart : WellFormed heartBag := Or.inl ⟨rfl, by decide⟩
    simp only [emitted, meaning, List.mem_singleton, forall_eq, List.map_singleton]
    exact ⟨⟨hheart, by decide⟩, rfl⟩
  | send time =>
    have hfit : 25 + (songPayload R id (time id)).length ≤ 1024 := h
    by_cases hto : songTo id ≠ id
    · simp only [emitted, meaning, if_pos hto, List.mem_singleton, forall_eq, List.map_singleton]
      refine ⟨⟨wellFormed_relayFrame 22 (length_songPayload_pos C.toWriters _ _) (by omega), ?_⟩,
        ?_⟩
      · rw [length_relayFrame]
        omega
      · rw [recognition_relayFrame]
    · simp [emitted, meaning, hto]

/-- The record of a song is one that the receiving client shows as this song. -/
theorem report_meaning (C : R.Conforms unread) {token : UInt64 → Bytes} {e : ThreadEvent}
    (hfit : Fits R token id e) {r : Recognised} (hr : r ∈ meaning R token id e) {d : TransData}
    (hd : d ∈ r.transData) :
    ∃ time, e = .send time ∧ report R d.data = .song id (songOf id (songTo id) (time id)) := by
  cases e with
  | connected id' mem =>
    simp only [meaning] at hr
    split_ifs at hr
    · obtain rfl := List.mem_singleton.mp hr
      cases hd
    · cases hr
  | heart =>
    obtain rfl := List.mem_singleton.mp hr
    cases hd
  | send time =>
    have hlen : 25 + (songPayload R id (time id)).length ≤ 1024 := hfit
    simp only [meaning] at hr
    split_ifs at hr
    · obtain rfl := List.mem_singleton.mp hr
      obtain rfl := Option.some.inj hd
      refine ⟨time, rfl, report_relayFrame C ?_ ?_⟩
      · intro x hx
        obtain rfl : 3 = x := Option.some.inj hx
        decide
      · exact Nat.lt_of_le_of_lt (Nat.le_of_add_left_le hlen) (by decide)
    · cases hr

/-- Whatever the callbacks of a thread of clients append to the output of one of them, and however
that arrives at the server and is read there, the server recognises the login of the client with
its id and token, its heartbeats, and its songs with sender and receiver, in this order and nothing
else; and the record of a song is one that the receiving client shows as this song. -/
theorem thread_stream_recognised (C : R.Conforms unread) {ids : List UInt64} (hids : ids.Nodup)
    (hid : id ∈ ids) {token : UInt64 → Bytes} {es : List ThreadEvent}
    (hfit : ∀ e ∈ es, Fits R token id e) {ss : List SocketEvent}
    (harrived : (ss.map Connection.arrived).flatten =
      (outputOf R ids token es id).flatten) (isHeart : Bool) :
    (∃ s, Transition.run (Connection.step R) { req := AnalyseReq.new isHeart } ss =
        some s ∧ s.trace <+: es.flatMap (meaning R token id) ∧
      (s.socket = [] → s.trace = es.flatMap (meaning R token id))) ∧
    ∀ r ∈ es.flatMap (meaning R token id), ∀ d ∈ r.transData, ∃ time, .send time ∈ es ∧
      report R d.data = .song id (songOf id (songTo id) (time id)) := by
  have hout := outputOf_eq R token id hids hid es
  have hframes : ∀ f ∈ outputOf R ids token es id,
      WellFormed f ∧ f.length + 4096 ≤ 2 ^ 31 := by
    intro f hf
    rw [hout] at hf
    obtain ⟨e, he, hfe⟩ := List.mem_flatMap.mp hf
    exact (recognition_emitted C (hfit e he)).1 f hfe
  have hmeaning : (outputOf R ids token es id).map (recognition R) =
      es.flatMap (meaning R token id) := by
    rw [hout, List.map_flatMap]
    exact List.flatMap_congr fun e he => (recognition_emitted C (hfit e he)).2
  constructor
  · have hstart := Connection.follows_start R (fun f hf => (hframes f hf).1) isHeart
    rw [← harrived] at hstart
    obtain ⟨s, hs, hend⟩ := hstart.run (fun f hf => (hframes f hf).1) fun f hf => (hframes f hf).2
    obtain ⟨hfirst, hall⟩ := hend.caught
    rw [hmeaning] at hfirst hall
    exact ⟨s, hs, hfirst, fun hsocket => (hall hsocket).1⟩
  · intro r hr d hd
    obtain ⟨e, he, hre⟩ := List.mem_flatMap.mp hr
    obtain ⟨time, rfl, hreport⟩ := report_meaning C (hfit e he) hre hd
    exact ⟨time, he, hreport⟩

/-- Two clients of a thread: the first one is sent a heartbeat before it is connected, logs in, and
sends a song to client 5. -/
def twoClients : List ThreadEvent :=
  [.heart, .connected 7 fun _ => 0, .send fun _ => ascii "12:00:00.000000", .heart]

/-- The output of client 7 arrives in two parts and is read after each. -/
def twoClientsRead : List SocketEvent :=
  let bs := (outputOf Wire.runtime [7, 10] (fun _ => [0x74]) twoClients 7).flatten
  [.arrive (bs.take 50), .readable ⟨fun _ => 0, fun _ => ⟨fun _ _ => 0, fun _ => 0⟩⟩,
    .arrive (bs.drop 50), .readable ⟨fun _ => 0, fun _ => ⟨fun _ _ => 0, fun _ => 0⟩⟩]

theorem twoClients_recognised :
    ∃ s, Transition.run (Connection.step Wire.runtime) { req := AnalyseReq.new false }
        twoClientsRead = some s ∧
      s.trace <+: twoClients.flatMap (meaning Wire.runtime (fun _ => [0x74]) 7) ∧
      (twoClients.flatMap (meaning Wire.runtime (fun _ => [0x74]) 7)).length = 4 := by
  have hfit : ∀ e ∈ twoClients, Fits Wire.runtime (fun _ => [0x74]) 7 e := by
    have hlogin : 25 + (loginRequest Wire.runtime 7 [0x74]).length ≤ 512 := by decide
    have hsong : 25 + (songPayload Wire.runtime 7 (ascii "12:00:00.000000")).length ≤ 1024 := by
      decide +kernel
    simp [twoClients, Fits, hlogin, hsong]
  have harrived : (twoClientsRead.map Connection.arrived).flatten =
      (outputOf Wire.runtime [7, 10] (fun _ => [0x74]) twoClients 7).flatten := by
    simp [twoClientsRead, Connection.arrived]
  obtain ⟨s, hs, hfirst, -⟩ :=
    (thread_stream_recognised Wire.conforms (by decide) (by decide) hfit harrived false).1
  exact ⟨s, hs, hfirst, by decide +kernel⟩

end Server

end Client

end EglComet
