import EglComet.Protobuf.WriteRead
import EglComet.WorkThread.PrintedIds

/-!
The requests to the HTTP account service, read back as the service reads them:
a head with a `Content-Length`, a `ReqPacket` of that many bytes, and the check
in its first parameter. The check is embedded through a C-string interface, so a
zero byte in it ends it.
-/
namespace EglComet

open Protobuf MachineInt

/-- The head of a request to a host, with the text of its `Content-Length`. -/
def postHead (host digits : Bytes) : Bytes :=
  ascii "POST / HTTP/1.1\r\nHost:" ++ host ++ ascii "\r\nContent-Length:" ++ digits ++
    ascii "\r\n\r\n"

/-- The `int` that `pack_post_data` returns for the bytes it wrote. -/
def postLength (request : Bytes) : ℤ := wrap32 request.length

/-- The bytes are a head whose `Content-Length` is the size of the body, and that body; the length
returned is the sum of the two. -/
structure IsPost (host request digits body : Bytes) : Prop where
  bytes : request = postHead host digits ++ body
  decimal : digits ≠ [] ∧ ∀ c ∈ digits, isDigit c = true
  contentLength : digitsValue digits = body.length
  total : postLength request = (postHead host digits).length + body.length

/-- The request has a body that parses as a `ReqPacket`, and its first parameter parses as exactly
this message. -/
def Delivers {σ M : Type} (R : Runtime σ) (T : MessageType M) (host request : Bytes) (m : M) :
    Prop :=
  ∃ digits body, IsPost host request digits body ∧
    (reqPacket.parseFromArray R body).2 = true ∧
    ∃ p ps, (reqPacket.parseFromArray R body).1.params = p :: ps ∧
      T.parseFromArray R p = (m, true)

theorem takeWhile_digits {digits : Bytes} (rest : Bytes) (h : ∀ c ∈ digits, isDigit c = true) :
    (digits ++ ascii "\r\n\r\n" ++ rest).takeWhile isDigit = digits := by
  rw [List.append_assoc, List.takeWhile_append_of_pos h]
  have hstop : (ascii "\r\n\r\n" ++ rest).takeWhile isDigit = [] := rfl
  rw [hstop, List.append_nil]

/-- A head with a decimal length ends where the first non-digit stands. -/
theorem postHead_inj {host digits digits' body body' : Bytes}
    (h : postHead host digits ++ body = postHead host digits' ++ body')
    (hd : ∀ c ∈ digits, isDigit c = true) (hd' : ∀ c ∈ digits', isDigit c = true) :
    digits = digits' ∧ body = body' := by
  simp only [postHead, List.append_assoc, List.append_cancel_left_eq] at h
  simp only [← List.append_assoc] at h
  have heq : digits = digits' := by
    rw [← takeWhile_digits body hd, h, takeWhile_digits body' hd']
  rw [heq, List.append_assoc, List.append_assoc, List.append_cancel_left_eq,
    List.append_cancel_left_eq] at h
  exact ⟨heq, h⟩

/-- The packet that carries one check. -/
def checkPacket (action : String) (param : Bytes) : ReqPacket where
  mask := some 0
  udi := some (ascii "ei=1&ai=1&bd=pada")
  reqNo := some 0
  rsaKeyVer := some (ascii "1")
  clientId := some 111
  action := [ascii action]
  params := [param]

section Packet

variable {σ : Type} {R : Runtime σ} {unread : σ → Bytes}

theorem packPostData_eq (a : AnalyseReq) (action : String) (url : Bytes) :
    (packPostData R a action url).1 =
      let body := (checkPacket action (cstr a.serializeStr)).serialize R
      postHead (cstr url) (ascii (toString (wrap32 body.length))) ++ body := rfl

/-- The fields of a packet, in the order in which they are written. -/
theorem serialize_checkPacket (R : Runtime σ) (action : String) (param : Bytes) :
    (checkPacket action param).serialize R =
      R.writeInt32 1 0 ++ R.writeString 2 (ascii "ei=1&ai=1&bd=pada") ++
        R.writeString 3 (ascii action) ++ R.writeString 4 param ++ R.writeInt32 5 0 ++
        R.writeInt32 8 111 ++ R.writeString 11 (ascii "1") := by
  have hrep (number : ℕ) (b : Bytes) : repString R number [b] = R.writeString number b :=
    List.append_nil _
  simp only [ReqPacket.serialize, checkPacket, hrep, optInt32, optString, Option.map_some,
    Option.getD_some, Option.map_none, Option.getD_none, List.append_nil]

theorem checkPacket_parse (C : R.Conforms unread) {action : String} {param : Bytes}
    (ha : (ascii action).length < 2 ^ 31) (hp : param.length < 2 ^ 31) :
    reqPacket.parseFromArray R ((checkPacket action param).serialize R) =
      (checkPacket action param, true) := by
  rw [serialize_checkPacket]
  have hmask : Reads R unread reqPacket.fields (R.writeInt32 1 0) _ :=
    C.reads_int32 (by decide) (by decide) rfl (by decide)
  have hudi : Reads R unread reqPacket.fields (R.writeString 2 (ascii "ei=1&ai=1&bd=pada")) _ :=
    C.reads_string (by decide) rfl (by decide)
  have haction : Reads R unread reqPacket.fields (R.writeString 3 (ascii action)) _ :=
    C.reads_string (by decide) rfl ha
  have hparam : Reads R unread reqPacket.fields (R.writeString 4 param) _ :=
    C.reads_string (by decide) rfl hp
  have hreqNo : Reads R unread reqPacket.fields (R.writeInt32 5 0) _ :=
    C.reads_int32 (by decide) (by decide) rfl (by decide)
  have hclient : Reads R unread reqPacket.fields (R.writeInt32 8 111) _ :=
    C.reads_int32 (by decide) (by decide) rfl (by decide)
  have hver : Reads R unread reqPacket.fields (R.writeString 11 (ascii "1")) _ :=
    C.reads_string (by decide) rfl (by decide)
  exact C.parse ((((((hmask.append hudi).append haction).append hparam).append hreqNo).append
    hclient).append hver)

/-- The size of a packet, from the lengths of its action and its parameter. -/
def packetSize (action param : ℕ) : ℕ := 31 + action + Wire.varintSize param + param

theorem length_checkPacket (W : R.Writers) {action : String} {param : Bytes}
    (ha : (ascii action).length < 128) : ((checkPacket action param).serialize R).length =
      packetSize (ascii action).length param.length := by
  have hudi : (ascii "ei=1&ai=1&bd=pada").length = 17 := by decide
  have hver : (ascii "1").length = 1 := by decide
  rw [serialize_checkPacket]
  simp only [W.int32, List.length_append, Wire.length_writeInt (show 1 < 16 by decide),
    Wire.length_writeInt (show 5 < 16 by decide), Wire.length_writeInt (show 8 < 16 by decide),
    W.length_string (show 2 < 15 by decide), W.length_string (show 3 < 15 by decide),
    W.length_string (show 4 < 15 by decide), W.length_string (show 11 < 15 by decide), hudi, hver,
    Wire.varintSize_low ha, packetSize]
  simp only [Wire.varintSize_low (show 17 < 128 by decide),
    Wire.varintSize_low (show 1 < 128 by decide),
    Wire.varintSize_low (show ((0 : ℤ) % 2 ^ 64).toNat < 128 by decide),
    Wire.varintSize_low (show ((111 : ℤ) % 2 ^ 64).toNat < 128 by decide)]
  omega

end Packet

/-- The size of a request, from the lengths of its host, its action and its parameter. -/
def requestSize (host action param : ℕ) : ℕ :=
  43 + host + (Nat.toDigits 10 (packetSize action param)).length + packetSize action param

theorem length_postHead (host digits : Bytes) :
    (postHead host digits).length = 43 + host.length + digits.length := by
  have h1 : (ascii "POST / HTTP/1.1\r\nHost:").length = 22 := by decide
  have h2 : (ascii "\r\nContent-Length:").length = 17 := by decide
  have h3 : (ascii "\r\n\r\n").length = 4 := by decide
  simp only [postHead, List.length_append, h1, h2, h3]
  omega

theorem length_ascii_repr (n : ℕ) : (ascii n.repr).length = (Nat.toDigits 10 n).length := by
  rw [ascii_repr, List.length_map]

/-- A body of less than `2 ^ 31` bytes is announced by its size. -/
theorem contentLength_eq {body : Bytes} (h : body.length < 2 ^ 31) :
    ascii (toString (wrap32 body.length)) = ascii body.length.repr := by
  rw [wrap32_of_range (by omega) (by omega)]
  rfl

theorem cstr_eq_self_iff {bs : Bytes} : cstr bs = bs ↔ 0 ∉ bs := by
  rw [cstr, List.takeWhile_eq_self_iff]
  constructor
  · intro h h0
    simpa using h 0 h0
  · intro h b hb
    exact decide_eq_true fun h0 => h (h0 ▸ hb)

section Check

variable {σ M : Type} {R : Runtime σ} {unread : σ → Bytes} {T : MessageType M} {m : M}
  {inner : Bytes} {action : String} {a : AnalyseReq}

/-- The body of the request for an inner message. -/
def bodyOf (R : Runtime σ) (action : String) (inner : Bytes) : Bytes :=
  (checkPacket action (cstr inner)).serialize R

theorem length_bodyOf (W : R.Writers) (ha : (ascii action).length < 128) (inner : Bytes) :
    (bodyOf R action inner).length = packetSize (ascii action).length (cstr inner).length :=
  length_checkPacket W ha

/-- A request whose body has less than `2 ^ 31` bytes. -/
theorem packPostData_short (hs : a.serializeStr = inner) (url : Bytes)
    (h : (bodyOf R action inner).length < 2 ^ 31) :
    (packPostData R a action url).1 =
      postHead (cstr url) (ascii (bodyOf R action inner).length.repr) ++ bodyOf R action inner := by
  rw [packPostData_eq, hs, ← contentLength_eq h]
  rfl

theorem length_packPostData (W : R.Writers) (ha : (ascii action).length < 128)
    (hs : a.serializeStr = inner) (url : Bytes) (h : (bodyOf R action inner).length < 2 ^ 31) :
    (packPostData R a action url).1.length =
      requestSize (cstr url).length (ascii action).length (cstr inner).length := by
  rw [packPostData_short hs url h, List.length_append, length_postHead, length_ascii_repr,
    length_bodyOf W ha]
  rfl

theorem bodyOf_length_le (action : String) (hs : a.serializeStr = inner) (url : Bytes) :
    (bodyOf R action inner).length ≤ (packPostData R a action url).1.length := by
  rw [packPostData_eq, hs]
  simp only [List.length_append]
  exact Nat.le_add_left _ _

theorem bodyOf_parse (C : R.Conforms unread) (ha : (ascii action).length < 128)
    (h : (bodyOf R action inner).length < 2 ^ 31) :
    reqPacket.parseFromArray R (bodyOf R action inner) =
      (checkPacket action (cstr inner), true) := by
  rw [length_bodyOf C.toWriters ha, packetSize] at h
  exact checkPacket_parse C (by omega) (by omega)

/-- A check arrives exactly when it has no zero byte and its request has less than `2 ^ 31` bytes,
provided that what is cut off does not parse as it. -/
theorem delivers_packPostData_iff (C : R.Conforms unread) (ha : (ascii action).length < 128)
    (hparse : inner.length < 2 ^ 31 → T.parseFromArray R inner = (m, true))
    (hcut : ∀ p, p <+: inner → p ≠ inner → T.parseFromArray R p ≠ (m, true))
    (hs : a.serializeStr = inner) (url : Bytes) :
    Delivers R T (cstr url) (packPostData R a action url).1 m ↔
      0 ∉ inner ∧ requestSize (cstr url).length (ascii action).length inner.length < 2 ^ 31 := by
  constructor
  · rintro ⟨digits, body, hpost, -, p, ps, hp, hT⟩
    have hlt : (packPostData R a action url).1.length < 2 ^ 31 := by
      have htotal := hpost.total
      rw [← Nat.cast_add, ← List.length_append, ← hpost.bytes, postLength] at htotal
      have hrange := (wrap32_range (packPostData R a action url).1.length).2
      omega
    have hbody := lt_of_le_of_lt (bodyOf_length_le action hs url) hlt
    have heq := (packPostData_short hs url hbody).symm.trans hpost.bytes
    obtain ⟨-, rfl⟩ := postHead_inj heq (isDigit_ascii_repr _) hpost.decimal.2
    rw [bodyOf_parse C ha hbody] at hp
    obtain rfl : cstr inner = p := (List.cons.inj hp).1
    have hself : cstr inner = inner := by
      by_contra hne
      exact hcut _ (List.takeWhile_prefix _) hne hT
    refine ⟨cstr_eq_self_iff.mp hself, ?_⟩
    rw [length_packPostData C.toWriters ha hs url hbody, hself] at hlt
    exact hlt
  · rintro ⟨h0, hsize⟩
    have hself := cstr_eq_self_iff.mpr h0
    have hlen := length_bodyOf C.toWriters ha inner
    rw [hself] at hlen
    have hbody : (bodyOf R action inner).length < 2 ^ 31 := by
      rw [hlen]
      unfold requestSize at hsize
      omega
    have hreq := length_packPostData C.toWriters ha hs url hbody
    rw [hself] at hreq
    have hbytes := packPostData_short hs url hbody
    refine ⟨_, _, ⟨hbytes, ⟨by simp [ascii_repr], isDigit_ascii_repr _⟩,
      digitsValue_ascii_repr _, ?_⟩, ?_, ?_⟩
    · rw [← Nat.cast_add, ← List.length_append, ← hbytes, postLength, hreq,
        wrap32_of_range (by omega) (by omega)]
    · rw [bodyOf_parse C ha hbody]
    · refine ⟨inner, [], by rw [bodyOf_parse C ha hbody, hself]; rfl, hparse ?_⟩
      rw [hlen, packetSize] at hbody
      omega

end Check

/-- The size of a serialized `ReqCheckTokenByID`. -/
def loginCheckSize (id : UInt64) (token : Bytes) : ℕ :=
  2 + Wire.varintSize id.toNat + Wire.varintSize token.length + token.length

/-- The size of a serialized `ReqCheckRelationByID`. -/
def relationCheckSize (fromId toId : UInt64) : ℕ :=
  2 + Wire.varintSize fromId.toNat + Wire.varintSize toId.toNat

theorem signed_mod (id : UInt64) : (signed id % 2 ^ 64).toNat = id.toNat := by
  have hlt := id.toNat_lt
  unfold signed
  split_ifs <;> omega

theorem signed_range (id : UInt64) : -2 ^ 63 ≤ signed id ∧ signed id < 2 ^ 63 := by
  have hlt := id.toNat_lt
  unfold signed
  split_ifs <;> omega

theorem zero_mem_writeInt_signed {number : ℕ} (h : number ≠ 0) (id : UInt64) :
    0 ∈ Wire.writeInt number (signed id) ↔ id = 0 := by
  rw [Wire.zero_mem_writeInt h, ← UInt64.toNat_inj, ← signed_mod]
  show _ ↔ _ = 0
  omega

section Deliver

variable {σ : Type} {R : Runtime σ} {unread : σ → Bytes}

/-- The service never reads a token of `2 ^ 31` bytes or more. -/
theorem loginCheck_token_lt (C : R.Conforms unread) {p token : Bytes} {id : Option ℤ}
    (h : reqCheckTokenByID.parseFromArray R p = (⟨id, some token⟩, true)) :
    token.length < 2 ^ 31 := by
  have hm : (mergePartial R reqCheckTokenByID.fields reqCheckTokenByID.empty
      (R.ofArray p)).1 = ⟨id, some token⟩ := congrArg Prod.fst h
  have hok := congrArg Prod.snd h
  simp only [MessageType.parseFromArray, Bool.and_eq_true] at hok
  have hinv := mergePartial_invariant (P := fun m => ∀ b ∈ m.token, b.length < 2 ^ 31)
    ?_ (by simp [reqCheckTokenByID]) hok.1.1
  · rw [hm] at hinv
    exact hinv token rfl
  · intro f hf m s m' u hP hr
    simp only [reqCheckTokenByID, List.mem_cons, List.not_mem_nil, or_false] at hf
    rcases hf with rfl | rfl
    · cases hi : R.readInt64 s with
      | none => simp [Field.read, hi] at hr
      | some r =>
        obtain ⟨rfl, -⟩ : { m with id := some r.1 } = m' ∧ some r.2 = some u := by
          simpa [Field.read, hi] using hr
        exact hP
    · obtain ⟨rfl, hu⟩ := Prod.mk.inj hr
      rintro b ⟨⟩
      exact C.readString_lt _ _ _ _ (Prod.ext rfl hu)

theorem loginCheck_parse (C : R.Conforms unread) {v : ℤ} {token : Bytes}
    (hv : -2 ^ 63 ≤ v ∧ v < 2 ^ 63) (ht : token.length < 2 ^ 31) :
    reqCheckTokenByID.parseFromArray R (R.writeInt64 1 v ++ R.writeString 2 token) =
      (⟨some v, some token⟩, true) := by
  have hid : Reads R unread reqCheckTokenByID.fields (R.writeInt64 1 v) _ :=
    C.reads_int64 (by decide) (by decide) rfl hv
  have htoken : Reads R unread reqCheckTokenByID.fields (R.writeString 2 token) _ :=
    C.reads_string (by decide) rfl ht
  exact C.parse (hid.append htoken)

theorem loginCheck_cut (C : R.Conforms unread) {v : ℤ} {token p : Bytes}
    (hv : -2 ^ 63 ≤ v ∧ v < 2 ^ 63) (hp : p <+: R.writeInt64 1 v ++ R.writeString 2 token)
    (hne : p ≠ R.writeInt64 1 v ++ R.writeString 2 token) :
    reqCheckTokenByID.parseFromArray R p ≠ (⟨some v, some token⟩, true) := by
  intro h
  have ht := loginCheck_token_lt C h
  have hid : Reads R unread reqCheckTokenByID.fields (R.writeInt64 1 v) _ :=
    C.reads_int64 (by decide) (by decide) rfl hv
  have hfail := C.parse_cut hid
    (fun q h0 hq hqne => C.refuses_int 1 (by decide) (by decide) rfl rfl h0 (C.int64 1 v ▸ hq)
      (C.int64 1 v ▸ hqne))
    (fun q h0 hq hqne => C.refuses_string 2 (by decide) rfl ht h0 (C.string 2 token ▸ hq)
      (C.string 2 token ▸ hqne)) rfl rfl hp hne
  rw [h] at hfail
  simp at hfail

theorem relationCheck_parse (C : R.Conforms unread) {v w : ℤ} (hv : -2 ^ 63 ≤ v ∧ v < 2 ^ 63)
    (hw : -2 ^ 63 ≤ w ∧ w < 2 ^ 63) :
    reqCheckRelationByID.parseFromArray R (R.writeInt64 1 v ++ R.writeInt64 2 w) =
      (⟨some v, some w⟩, true) := by
  have hfrom : Reads R unread reqCheckRelationByID.fields (R.writeInt64 1 v) _ :=
    C.reads_int64 (by decide) (by decide) rfl hv
  have hto : Reads R unread reqCheckRelationByID.fields (R.writeInt64 2 w) _ :=
    C.reads_int64 (by decide) (by decide) rfl hw
  exact C.parse (hfrom.append hto)

theorem relationCheck_cut (C : R.Conforms unread) {v w : ℤ} {p : Bytes}
    (hv : -2 ^ 63 ≤ v ∧ v < 2 ^ 63) (hp : p <+: R.writeInt64 1 v ++ R.writeInt64 2 w)
    (hne : p ≠ R.writeInt64 1 v ++ R.writeInt64 2 w) :
    reqCheckRelationByID.parseFromArray R p ≠ (⟨some v, some w⟩, true) := by
  intro h
  have hfrom : Reads R unread reqCheckRelationByID.fields (R.writeInt64 1 v) _ :=
    C.reads_int64 (by decide) (by decide) rfl hv
  have hfail := C.parse_cut hfrom
    (fun q h0 hq hqne => C.refuses_int 1 (by decide) (by decide) rfl rfl h0 (C.int64 1 v ▸ hq)
      (C.int64 1 v ▸ hqne))
    (fun q h0 hq hqne => C.refuses_int 2 (by decide) (by decide) rfl rfl h0 (C.int64 2 w ▸ hq)
      (C.int64 2 w ▸ hqne))
    rfl rfl hp hne
  rw [h] at hfail
  simp at hfail

theorem loginRequest_delivers_iff (C : R.Conforms unread) (a : AnalyseReq) (url : Bytes)
    (id : UInt64) (token : Bytes) : Delivers R reqCheckTokenByID (cstr url)
        (getLoginPostData R a (signed id) token url).1
        ⟨some (signed id), some token⟩ ↔
      (id ≠ 0 ∧ token ≠ [] ∧ 0 ∉ token) ∧
        requestSize (cstr url).length 17 (loginCheckSize id token) < 2 ^ 31 := by
  have hrange := signed_range id
  have hlen : (R.writeInt64 1 (signed id) ++ R.writeString 2 token).length =
      loginCheckSize id token := by
    rw [C.int64, List.length_append, Wire.length_writeInt (by decide), C.length_string (by decide),
      signed_mod, loginCheckSize]
    omega
  have hzero : 0 ∉ R.writeInt64 1 (signed id) ++ R.writeString 2 token ↔
      id ≠ 0 ∧ token ≠ [] ∧ 0 ∉ token := by
    rw [C.int64, C.string, List.mem_append, zero_mem_writeInt_signed (by decide),
      Wire.zero_mem_writeString]
    tauto
  rw [← hzero, ← hlen]
  refine delivers_packPostData_iff C (by decide) (fun h => loginCheck_parse C hrange ?_)
    (fun p hp hne => loginCheck_cut C hrange hp hne) rfl url
  rw [hlen, loginCheckSize] at h
  omega

theorem relationRequest_delivers_iff (C : R.Conforms unread) (a : AnalyseReq) (url : Bytes)
    (fromId toId : UInt64) : Delivers R reqCheckRelationByID (cstr url)
        (getRelationPostData R a (signed fromId) (signed toId) url).1
        ⟨some (signed fromId), some (signed toId)⟩ ↔
      (fromId ≠ 0 ∧ toId ≠ 0) ∧
        requestSize (cstr url).length 20 (relationCheckSize fromId toId) < 2 ^ 31 := by
  have hrange := signed_range fromId
  have hlen : (R.writeInt64 1 (signed fromId) ++ R.writeInt64 2 (signed toId)).length =
      relationCheckSize fromId toId := by
    rw [C.int64, C.int64, List.length_append, Wire.length_writeInt (by decide),
      Wire.length_writeInt (by decide), signed_mod, signed_mod, relationCheckSize]
    omega
  have hzero : 0 ∉ R.writeInt64 1 (signed fromId) ++ R.writeInt64 2 (signed toId) ↔
      fromId ≠ 0 ∧ toId ≠ 0 := by
    rw [C.int64, C.int64, List.mem_append, zero_mem_writeInt_signed (by decide),
      zero_mem_writeInt_signed (by decide)]
    tauto
  rw [← hzero, ← hlen]
  exact delivers_packPostData_iff C (by decide)
    (fun _ => relationCheck_parse C hrange (signed_range toId))
    (fun p hp hne => relationCheck_cut C hrange hp hne) rfl url

/-- The account service reads back the check that was asked for exactly when no id is zero, the
token is not empty and has no zero byte, and the request has less than `2 ^ 31` bytes, whatever
library that conforms the two sides use. -/
theorem requests_deliver_iff (C : R.Conforms unread) (a : AnalyseReq) (url : Bytes) :
    (∀ (id : UInt64) (token : Bytes),
      Delivers R reqCheckTokenByID (cstr url)
          (getLoginPostData R a (signed id) token url).1
          ⟨some (signed id), some token⟩ ↔
        (id ≠ 0 ∧ token ≠ [] ∧ 0 ∉ token) ∧
          requestSize (cstr url).length 17 (loginCheckSize id token) < 2 ^ 31) ∧
    ∀ fromId toId : UInt64,
      Delivers R reqCheckRelationByID (cstr url)
          (getRelationPostData R a (signed fromId) (signed toId) url).1
          ⟨some (signed fromId), some (signed toId)⟩ ↔
        (fromId ≠ 0 ∧ toId ≠ 0) ∧
          requestSize (cstr url).length 20 (relationCheckSize fromId toId) < 2 ^ 31 :=
  ⟨loginRequest_delivers_iff C a url, relationRequest_delivers_iff C a url⟩

end Deliver

/-- The check of id 7 with the token `t` arrives. -/
theorem short_token_delivered :
    Delivers Wire.runtime reqCheckTokenByID (cstr (ascii "comet"))
      (getLoginPostData Wire.runtime (.new false) (signed 7) [0x74] (ascii "comet")).1
      ⟨some (signed 7), some [0x74]⟩ :=
  ((requests_deliver_iff Wire.conforms (.new false) (ascii "comet")).1 7 [0x74]).mpr
    (by decide +kernel)

/-- The check of id 7 with an empty token is cut before the length of the token. -/
theorem empty_token_not_delivered :
    ¬ Delivers Wire.runtime reqCheckTokenByID (ascii "comet")
      (getLoginPostData Wire.runtime (.new false) 7 [] (ascii "comet")).1 ⟨some 7, some []⟩ := by
  intro h
  exact ((loginRequest_delivers_iff Wire.conforms (.new false) (ascii "comet") 7 []).mp h).1.2.1 rfl

/-- `char buffer[1024]` of `http_login_event` and of `http_trans_event`. -/
def requestBuffer : ℕ := 1024

/-- The size of a request that fits has three decimal digits at most, and its parameter a length of
two bytes at most. -/
theorem requestSize_fits_iff {host param : ℕ} (h : host ≤ 253) :
    requestSize host 17 param ≤ requestBuffer ↔ host + param ≤ 928 := by
  have hv := Wire.varintSize_le param
  have hdigits (k : ℕ) (hk : 0 < k) := Nat.length_toDigits_le_iff (b := 10)
    (n := packetSize 17 param) (by decide) hk
  have h2 := hdigits 2 (by decide)
  have h3 := hdigits 3 (by decide)
  unfold requestSize requestBuffer
  unfold packetSize at h2 h3 ⊢
  rcases lt_or_ge param 128 with hlow | hhigh
  · rw [Wire.varintSize_low hlow] at h2 h3 ⊢
    omega
  · rcases lt_or_ge param 16384 with hmid | hbig
    · rw [Wire.varintSize_mid hhigh hmid] at h2 h3 ⊢
      omega
    · omega

theorem cstr_append {bs : Bytes} (h : 0 ∉ bs) (cs : Bytes) : cstr (bs ++ cs) = bs ++ cstr cs := by
  rw [cstr, List.takeWhile_append_of_pos]
  · rfl
  · exact fun b hb => decide_eq_true fun h0 => h (h0 ▸ hb)

theorem cstr_length_le (bs : Bytes) : (cstr bs).length ≤ bs.length :=
  (List.takeWhile_prefix _).length_le

section Fits

variable {σ : Type} {R : Runtime σ} {unread : σ → Bytes} {a : AnalyseReq} {inner : Bytes}
  {action : String}

/-- The part of a login check that is embedded. -/
theorem cstr_loginCheck (W : R.Writers) {id : UInt64} {token : Bytes} (hid : id ≠ 0)
    (ht : token ≠ []) : (cstr (R.writeInt64 1 (signed id) ++ R.writeString 2 token)).length =
      2 + Wire.varintSize id.toNat + Wire.varintSize token.length + (cstr token).length := by
  have hint := (zero_mem_writeInt_signed (show 1 ≠ 0 by decide) id).not.mpr hid
  have hlen : token.length ≠ 0 := by simpa using ht
  have hpre : 0 ∉ Wire.encodeVarint 10 (2 * 8 + 2) ++ Wire.encodeVarint 10 token.length := by
    rw [List.mem_append, Wire.zero_mem_encodeVarint, Wire.zero_mem_encodeVarint]
    omega
  rw [W.int64, W.string, cstr_append hint, Wire.writeString, cstr_append hpre]
  simp only [List.length_append, Wire.length_writeInt (show 1 < 16 by decide), signed_mod]
  have htag : (Wire.encodeVarint 10 (2 * 8 + 2)).length = 1 := rfl
  rw [htag, Wire.varintSize, Wire.varintSize]
  omega

theorem packPostData_fits_iff (W : R.Writers) (ha : (ascii action).length = 17)
    (hs : a.serializeStr = inner) {url : Bytes} (hu : url.length ≤ 253) :
    (packPostData R a action url).1.length ≤ requestBuffer ↔
      (cstr url).length + (cstr inner).length ≤ 928 := by
  have hlen := length_bodyOf W (show (ascii action).length < 128 by omega) inner
  rcases lt_or_ge (bodyOf R action inner).length (2 ^ 31) with hlt | hge
  · rw [length_packPostData W (by omega) hs url hlt, ha]
    exact requestSize_fits_iff ((cstr_length_le url).trans hu)
  · have hle := bodyOf_length_le (R := R) action hs url
    have hv := Wire.varintSize_le (cstr inner).length
    rw [packetSize] at hlen
    unfold requestBuffer
    constructor <;> intro <;> omega

/-- The bytes of a login request, and the room for them. -/
theorem loginRequest_fits_iff (W : R.Writers) (a : AnalyseReq) {url : Bytes} (hu : url.length ≤ 253)
    (id : UInt64) (token : Bytes) :
    (getLoginPostData R a (signed id) token url).1.length ≤ requestBuffer ↔
      id = 0 ∨ (cstr url).length + (2 + Wire.varintSize id.toNat + Wire.varintSize token.length +
        (cstr token).length) ≤ 928 := by
  have hhost := (cstr_length_le url).trans hu
  have hvid := Wire.varintSize_le id.toNat
  have hiff : (getLoginPostData R a (signed id) token url).1.length ≤ requestBuffer ↔
      (cstr url).length +
        (cstr (R.writeInt64 1 (signed id) ++ R.writeString 2 token)).length ≤ 928 :=
    packPostData_fits_iff W (by decide) rfl hu
  rw [hiff]
  by_cases hid : id = 0
  · refine iff_of_true ?_ (Or.inl hid)
    have hcut : cstr (R.writeInt64 1 (signed id) ++ R.writeString 2 token) = [8] := by
      rw [hid, W.int64, W.string]
      rfl
    rw [hcut, List.length_singleton]
    omega
  · by_cases ht : token = []
    · have hle := cstr_length_le (R.writeInt64 1 (signed id) ++ R.writeString 2 [])
      have hint : (R.writeInt64 1 (signed id)).length = 1 + Wire.varintSize id.toNat := by
        rw [W.int64, Wire.length_writeInt (by decide), signed_mod]
      have hempty : (R.writeString 2 []).length = 2 := by
        rw [W.string]
        rfl
      rw [List.length_append, hint, hempty] at hle
      have hzero : Wire.varintSize ([] : Bytes).length = 1 := rfl
      have hnil : (cstr []).length = 0 := rfl
      rw [ht, hzero, hnil]
      refine iff_of_true (by omega) (Or.inr (by omega))
    · rw [cstr_loginCheck W hid ht]
      simp only [hid, false_or]

theorem requestSize_relation_le {host param : ℕ} (h : host ≤ 253) (hp : param ≤ 22) :
    requestSize host 20 param ≤ requestBuffer := by
  have h2 := Nat.length_toDigits_le_iff (b := 10) (k := 2) (n := packetSize 20 param) (by decide)
    (by decide)
  unfold requestSize requestBuffer
  rw [packetSize, Wire.varintSize_low (by omega)] at h2 ⊢
  omega

theorem relationRequest_fits (W : R.Writers) (a : AnalyseReq) {url : Bytes} (hu : url.length ≤ 253)
    (fromId toId : UInt64) :
    (getRelationPostData R a (signed fromId) (signed toId) url).1.length ≤
      requestBuffer := by
  have hhost := (cstr_length_le url).trans hu
  have hparam : (cstr (R.writeInt64 1 (signed fromId) ++ R.writeInt64 2 (signed toId))).length ≤
      22 := by
    have hfrom := Wire.varintSize_le fromId.toNat
    have hto := Wire.varintSize_le toId.toNat
    refine (cstr_length_le _).trans ?_
    rw [W.int64, W.int64, List.length_append, Wire.length_writeInt (by decide),
      Wire.length_writeInt (by decide), signed_mod, signed_mod]
    omega
  have hbody := length_bodyOf W (show (ascii "ReqCheckRelationByID").length < 128 by decide)
    (R.writeInt64 1 (signed fromId) ++ R.writeInt64 2 (signed toId))
  have haction : (ascii "ReqCheckRelationByID").length = 20 := by decide
  rw [packetSize, haction, Wire.varintSize_low (by omega)] at hbody
  have hlen : (getRelationPostData R a (signed fromId) (signed toId) url).1.length = _ :=
    length_packPostData W (by decide) rfl url (lt_of_eq_of_lt hbody (by omega))
  rw [hlen, haction]
  exact requestSize_relation_le hhost hparam

/-- A client can send every id and every token that a string field can hold. -/
theorem loginOf_written (C : R.Conforms unread) (id : UInt64) {token : Bytes}
    (ht : token.length < 2 ^ 31) : loginOf R (R.writeInt64 1 (signed id) ++ R.writeString 2 token) =
      { id, token } := by
  have hid : Reads R unread c2sLogin.fields (R.writeInt64 1 (signed id)) _ :=
    C.reads_int64 (by decide) (by decide) rfl (signed_range id)
  have htoken : Reads R unread c2sLogin.fields (R.writeString 2 token) _ :=
    C.reads_string (by decide) rfl ht
  have hparse : (c2sLogin.parseFromArray R
      (R.writeInt64 1 (signed id) ++ R.writeString 2 token)).1 =
        { id := some (signed id), token := some token } :=
    congrArg Prod.fst (C.parse (hid.append htoken))
  unfold loginOf
  simp only [hparse, Option.getD_some, signed_mod, UInt64.ofNat_toNat]

/-- For a host name of at most 253 characters the request about a relation always fits its buffer;
the request about a login fits exactly when the host name and the check, up to its first zero
byte, have at most 928 bytes. -/
theorem requests_fit_iff (W : R.Writers) (a : AnalyseReq) (url : Bytes) (hu : url.length ≤ 253) :
    (∀ payload : Bytes,
      (getLoginPostData R a (signed (loginOf R payload).id)
          (loginOf R payload).token url).1.length ≤ requestBuffer ↔
        (loginOf R payload).id = 0 ∨
          (cstr url).length + (2 + Wire.varintSize (loginOf R payload).id.toNat +
            Wire.varintSize (loginOf R payload).token.length +
            (cstr (loginOf R payload).token).length) ≤ 928) ∧
    ∀ fromId toId : UInt64,
      (getRelationPostData R a (signed fromId) (signed toId) url).1.length ≤
        requestBuffer :=
  ⟨fun _ => loginRequest_fits_iff W a hu _ _, relationRequest_fits W a hu⟩

end Fits

/-- The login of id 7 with the token `t` fits. -/
theorem short_token_fits :
    (ascii "comet").length ≤ 253 ∧
      (getLoginPostData Wire.runtime (.new false)
        (signed (loginOf Wire.runtime [0x08, 7, 0x12, 1, 0x74]).id)
        (loginOf Wire.runtime [0x08, 7, 0x12, 1, 0x74]).token (ascii "comet")).1.length ≤
          requestBuffer :=
  ⟨by decide,
    ((requests_fit_iff Wire.conforms.toWriters (.new false) (ascii "comet") (by decide)).1 _).mpr
      (Or.inr (by decide +kernel))⟩

/-- A login payload with id 7 and a token of a thousand letters. -/
def longLogin : Bytes := [0x08, 7, 0x12, 0xE8, 0x07] ++ List.replicate 1000 0x74

theorem longLogin_overflows :
    (ascii "comet").length ≤ 253 ∧
      ¬ (getLoginPostData Wire.runtime (.new false) (signed (loginOf Wire.runtime longLogin).id)
        (loginOf Wire.runtime longLogin).token (ascii "comet")).1.length ≤ requestBuffer := by
  have hread : loginOf Wire.runtime longLogin = { id := 7, token := List.replicate 1000 0x74 } := by
    refine Eq.trans ?_ (loginOf_written Wire.conforms 7 (by rw [List.length_replicate]; decide))
    show _ = loginOf Wire.runtime (Wire.writeInt 1 (signed 7) ++ Wire.writeString 2 _)
    rw [Wire.writeString, List.length_replicate]
    rfl
  rw [hread, loginRequest_fits_iff Wire.conforms.toWriters _ (by decide)]
  decide +kernel

end EglComet
