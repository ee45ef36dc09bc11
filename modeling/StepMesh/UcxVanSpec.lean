import StepMesh.UcxVan

/-!
# What `SendMsg` of the UCX van posts

`Prepared` says what a message looks like when it comes to `SendMeta`, and what has changed in the van by
then; `sendMsg_eq_some` what is posted for it. The receiver reads the fields of the meta as they were
packed: they come before everything in it that may be too long.
-/

namespace StepMesh

open Buf

namespace UcxVan

variable {cfg : UcxCfg} {van van' van₁ : UcxVan} {msg msg₁ msg₂ : Message} {req : MetaTxReq}
  {data : Option DataTxReq} {len : Int}

/-- `IsValidPushpull`, and a request. -/
def isRequest (msg : Message) : Bool := isValidPushpull msg && msg.msgMeta.request

/-- A request that asks for a payload. -/
def isPull (msg : Message) : Bool := isRequest msg && !msg.msgMeta.push

/-- The message before `SendMeta`. -/
structure Prepared (van : UcxVan) (msg : Message) (van₁ : UcxVan) (msg₁ : Message) : Prop where
  recver : msg.msgMeta.recver ≠ kEmpty
  data : msg₁.data = msg.data
  fields : msg₁.msgMeta = { msg.msgMeta with
    key := msg₁.msgMeta.key, sid := msg₁.msgMeta.sid, valLen := msg₁.msgMeta.valLen
    option := msg₁.msgMeta.option }
  id : van₁.id = van.id
  request : isRequest msg → ucxDecodeKey msg = some msg₁.msgMeta.key ∧
    msg₁.msgMeta.sid = (van.nextSendSids msg.msgMeta.recver).tmod maxSidCount ∧
    van₁.nextSendSids = Function.update van.nextSendSids msg.msgMeta.recver (msg₁.msgMeta.sid + 1)
  other : isRequest msg = false → msg₁.msgMeta.key = msg.msgMeta.key ∧ van₁.nextSendSids = van.nextSendSids
  payload : isDataMsg msg → ∃ vals, msg.data[1]? = some vals ∧
    msg₁.msgMeta.valLen = (vals.size : Int).bmod (2 ^ 32) ∧ msg₁.msgMeta.option = ucxOptionData
  noPayload : isDataMsg msg = false → msg₁.msgMeta.option = ucxOptionMeta
  rxPool : van₁.rxPool = if isPull msg then
    van.rxPool.cacheLocalAddress msg₁.msgMeta.key msg.msgMeta.addr.toNat else van.rxPool

theorem stampRequest_eq_some (h : van.stampRequest msg = some (van₁, msg₁)) :
    ∃ key sid, msg₁ = { msg with msgMeta := { msg.msgMeta with key := key, sid := sid } } ∧
      (msg.msgMeta.request = true → ucxDecodeKey msg = some key ∧
        sid = (van.nextSendSids msg.msgMeta.recver).tmod maxSidCount ∧
        van₁ = { van with
          nextSendSids := Function.update van.nextSendSids msg.msgMeta.recver (sid + 1) }) ∧
      (msg.msgMeta.request = false → key = msg.msgMeta.key ∧ van₁ = van) := by
  unfold stampRequest at h
  split_ifs at h with hr
  · obtain ⟨key, hkey, heq⟩ := Option.bind_eq_some_iff.mp h
    simp only [Option.pure_def, Option.some.injEq, Prod.mk.injEq] at heq
    obtain ⟨rfl, rfl⟩ := heq
    exact ⟨key, _, rfl, fun _ => ⟨hkey, rfl, rfl⟩, fun hn => absurd (hr.symm.trans hn) (by decide)⟩
  · simp only [Option.some.injEq, Prod.mk.injEq] at h
    obtain ⟨rfl, rfl⟩ := h
    exact ⟨_, _, rfl, fun hn => absurd hn hr, fun _ => ⟨rfl, rfl⟩⟩

theorem announcePayload_eq_some (h : van.announcePayload msg = some (van₁, msg₁)) :
    ∃ valLen option, msg₁ = { msg with msgMeta := { msg.msgMeta with valLen := valLen, option := option } } ∧
      (isDataMsg msg → ∃ vals, msg.data[1]? = some vals ∧ valLen = (vals.size : Int).bmod (2 ^ 32) ∧
        option = ucxOptionData ∧ van₁ = van) ∧
      (isDataMsg msg = false → option = msg.msgMeta.option ∧
        van₁ = { van with rxPool := if !msg.msgMeta.push && msg.msgMeta.request then
          van.rxPool.cacheLocalAddress msg.msgMeta.key msg.msgMeta.addr.toNat else van.rxPool }) := by
  unfold announcePayload at h
  split_ifs at h with hd hp
  · obtain ⟨vals, hvals, heq⟩ := Option.bind_eq_some_iff.mp h
    simp only [Option.pure_def, Option.some.injEq, Prod.mk.injEq] at heq
    obtain ⟨rfl, rfl⟩ := heq
    exact ⟨_, _, rfl, fun _ => ⟨vals, hvals, rfl, rfl, rfl⟩, fun hn => absurd (hd.symm.trans hn) (by decide)⟩
  · obtain ⟨_, -, heq⟩ := Option.bind_eq_some_iff.mp h
    simp only [Option.pure_def, Option.some.injEq, Prod.mk.injEq] at heq
    obtain ⟨rfl, rfl⟩ := heq
    exact ⟨_, _, rfl, fun hn => absurd hn hd, fun _ => ⟨rfl, by rw [if_pos hp]⟩⟩
  · simp only [Option.some.injEq, Prod.mk.injEq] at h
    obtain ⟨rfl, rfl⟩ := h
    exact ⟨_, _, rfl, fun hn => absurd hn hd, fun _ => ⟨rfl, by rw [if_neg hp]⟩⟩

theorem prepared (h : van.prepareMsg msg = some (van₁, msg₁)) : Prepared van msg van₁ msg₁ := by
  obtain ⟨_, hg, h⟩ := Option.bind_eq_some_iff.mp h
  have hrecver : msg.msgMeta.recver ≠ kEmpty := by simpa [guard] using hg
  cases hv : isValidPushpull msg with
  | false =>
    rw [if_neg (by exact ne_true_of_eq_false hv)] at h
    simp only [Option.pure_def, Option.some.injEq, Prod.mk.injEq] at h
    obtain ⟨rfl, rfl⟩ := h
    constructor <;> simp [isRequest, isDataMsg, isPull, hv, hrecver]
  | true =>
    rw [if_pos (by exact hv)] at h
    obtain ⟨⟨van₂, msg₂⟩, hstamp, h⟩ := Option.bind_eq_some_iff.mp h
    obtain ⟨key, sid, rfl, hreq, hother⟩ := stampRequest_eq_some hstamp
    obtain ⟨valLen, option, rfl, hdata, hnot⟩ := announcePayload_eq_some h
    have hisdata : isDataMsg { msg with msgMeta :=
      { msg.msgMeta with option := ucxOptionMeta, key := key, sid := sid } } = isDataMsg msg := rfl
    rw [hisdata] at hdata hnot
    have hisreq : isRequest msg = msg.msgMeta.request := by rw [isRequest, hv, Bool.true_and]
    have hvan : van₁ = { van₂ with rxPool := van₁.rxPool } := by
      cases hd : isDataMsg msg with
      | true =>
        obtain ⟨-, -, -, -, rfl⟩ := hdata hd
        rfl
      | false => rw [(hnot hd).2]
    have hids : van₁.id = van₂.id ∧ van₁.nextSendSids = van₂.nextSendSids := by
      rw [hvan]
      exact ⟨rfl, rfl⟩
    have hkept : van₂.id = van.id ∧ van₂.rxPool = van.rxPool := by
      cases hr : msg.msgMeta.request with
      | true =>
        rw [(hreq hr).2.2]
        exact ⟨rfl, rfl⟩
      | false =>
        rw [(hother hr).2]
        exact ⟨rfl, rfl⟩
    refine ⟨hrecver, rfl, rfl, hids.1.trans hkept.1, ?_, ?_, ?_, fun hd => (hnot hd).1, ?_⟩
    · intro hr
      obtain ⟨hkey, hsid, hvan₂⟩ := hreq (hisreq ▸ hr)
      exact ⟨hkey, hsid, hids.2.trans (by rw [hvan₂])⟩
    · intro hr
      obtain ⟨hkey, hvan₂⟩ := hother (hisreq ▸ hr)
      exact ⟨hkey, hids.2.trans (by rw [hvan₂])⟩
    · intro hd
      obtain ⟨vals, hvals, hlen, hopt, -⟩ := hdata hd
      exact ⟨vals, hvals, hlen, hopt⟩
    · cases hd : isDataMsg msg with
      | true =>
        -- a message with a payload of its own asks for none
        have hpull : isPull msg = false := by
          rw [isDataMsg, hv] at hd
          rw [isPull, hisreq]
          exact (by decide : ∀ push request : Bool,
            (true && (push && request || !push && !request)) = true → (request && !push) = false) _ _ hd
        obtain ⟨-, -, -, -, rfl⟩ := hdata hd
        rw [hpull, hkept.2]
        rfl
      | false =>
        rw [(hnot hd).2, hkept.2, isPull, hisreq, Bool.and_comm]

/-- The payload is sent along with the meta. -/
def bundles (cfg : UcxCfg) (msg : Message) : Bool :=
  isDataMsg msg && decide (msg.msgMeta.srcDevType = .cpu) &&
    decide (msg.msgMeta.valLen ≤ cfg.shortSendThresh)

theorem sendMeta_eq_some (h : van.sendMeta cfg msg = some (msg₁, req, len)) :
    ∃ metaSize, getPackMetaLen msg.msgMeta = metaSize ∧ 0 < metaSize ∧
      makeTag van.id .ucxTagMeta msg.msgMeta.key = some req.tag ∧ req.rxId = msg.msgMeta.recver ∧
      req.size = metaSize ∧ req.buf = packMeta cfg.qpNum msg₁.msgMeta (fun _ => 0) ∧
      ((bundles cfg msg = true ∧ msg₁ = { msg with msgMeta := { msg.msgMeta with option := metaSize } } ∧
          len = metaSize + msg.msgMeta.valLen ∧
          ∃ vals, msg.data[1]? = some vals ∧ req.payload = some (vals.ptr, sizeT msg.msgMeta.valLen)) ∨
        bundles cfg msg = false ∧ msg₁ = msg ∧ len = metaSize ∧ req.payload = none) := by
  unfold sendMeta at h
  generalize hsize : getPackMetaLen msg.msgMeta = metaSize at h ⊢
  obtain ⟨_, hg, h⟩ := Option.bind_eq_some_iff.mp h
  obtain ⟨tag, htag, h⟩ := Option.bind_eq_some_iff.mp h
  have hpos : 0 < metaSize := by simpa [guard] using hg
  cases hb : bundles cfg msg with
  | true =>
    rw [if_pos (by exact hb)] at h
    obtain ⟨vals, hvals, heq⟩ := Option.bind_eq_some_iff.mp h
    simp only [Option.pure_def, Option.some.injEq, Prod.mk.injEq] at heq
    obtain ⟨rfl, rfl, rfl⟩ := heq
    exact ⟨metaSize, rfl, hpos, htag, rfl, rfl, rfl, .inl ⟨rfl, rfl, rfl, vals, hvals, rfl⟩⟩
  | false =>
    rw [if_neg (by exact ne_true_of_eq_false hb)] at h
    simp only [Option.pure_def, Option.some.injEq, Prod.mk.injEq] at h
    obtain ⟨rfl, rfl, rfl⟩ := h
    exact ⟨metaSize, rfl, hpos, htag, rfl, rfl, rfl, .inr ⟨rfl, rfl, rfl, rfl⟩⟩

/-- What is posted for the payload of `msg`, which is `msg₁` when it comes to `SendMeta`: the option of its
meta, what lies behind the meta, and the transfer of its own. -/
inductive PostsPayload (cfg : UcxCfg) (van : UcxVan) (msg msg₁ : Message) :
    Int → Option (Nat × Nat) → Option DataTxReq → Prop
  | none (hd : isDataMsg msg = false) : PostsPayload cfg van msg msg₁ ucxOptionMeta .none .none
  | bundled (hd : isDataMsg msg = true) {vals : SArray} (hvals : msg.data[1]? = some vals)
      (hb : bundles cfg msg₁ = true) :
      PostsPayload cfg van msg msg₁ (getPackMetaLen msg₁.msgMeta)
        (some (vals.ptr, sizeT msg₁.msgMeta.valLen)) .none
  | empty (hd : isDataMsg msg = true) (hb : bundles cfg msg₁ = false) (hlen : msg₁.msgMeta.valLen = 0) :
      PostsPayload cfg van msg msg₁ ucxOptionData .none .none
  | separate (hd : isDataMsg msg = true) {vals : SArray} (hvals : msg.data[1]? = some vals)
      (hb : bundles cfg msg₁ = false) (hlen : msg₁.msgMeta.valLen ≠ 0) {tag : UInt64}
      (htag : makeTag van.id .ucxTagData msg₁.msgMeta.key = some tag) :
      PostsPayload cfg van msg msg₁ ucxOptionData .none
        (some { rxId := msg.msgMeta.recver, tag := tag, buf := vals.ptr, count := vals.size })

/-- What is posted for a message. -/
structure Posts (cfg : UcxCfg) (van : UcxVan) (msg msg₁ : Message) (req : MetaTxReq)
    (data : Option DataTxReq) : Prop where
  pos : 0 < getPackMetaLen msg₁.msgMeta
  tag : makeTag van.id .ucxTagMeta msg₁.msgMeta.key = some req.tag
  rxId : req.rxId = msg.msgMeta.recver
  size : req.size = getPackMetaLen msg₁.msgMeta
  payload : ∃ option, req.buf = packMeta cfg.qpNum { msg₁.msgMeta with option := option } (fun _ => 0) ∧
    PostsPayload cfg van msg msg₁ option req.payload data

theorem Prepared.isDataMsg_eq (h : Prepared van msg van₁ msg₁) : isDataMsg msg₁ = isDataMsg msg := by
  rw [isDataMsg, isDataMsg, isValidPushpull, isValidPushpull, h.fields]

theorem getPackMetaLen_option (m : Meta) (option : Int) :
    getPackMetaLen { m with option := option } = getPackMetaLen m := by
  unfold getPackMetaLen packedLen
  rfl

theorem sendMsg_eq_some (h : van.sendMsg cfg msg = some (van', req, data)) :
    ∃ msg₁, Prepared van msg van' msg₁ ∧ Posts cfg van msg msg₁ req data := by
  obtain ⟨⟨van₁, msg₁⟩, hprep, hrest⟩ := Option.bind_eq_some_iff.mp h
  obtain ⟨⟨msg₂, req₁, len⟩, hmeta, hpost⟩ := Option.bind_eq_some_iff.mp hrest
  clear h hrest
  have hp := prepared hprep
  obtain ⟨metaSize, hsize, hpos, htag, hrx, hreq, hbuf, hcase⟩ := sendMeta_eq_some hmeta
  rw [hp.id] at htag
  have hrecver : msg₁.msgMeta.recver = msg.msgMeta.recver := by rw [hp.fields]
  dsimp only at hpost
  rcases hcase with ⟨hb, rfl, hsent, vals, hvals, hpay⟩ | ⟨hb, rfl, hsent, hpay⟩
  · have hd : isDataMsg msg = true := by
      rw [← hp.isDataMsg_eq]
      exact (Bool.and_eq_true_iff.mp (Bool.and_eq_true_iff.mp hb).1).1
    have hne : metaSize ≠ ucxOptionMeta := by
      unfold ucxOptionMeta
      omega
    rw [if_neg hne, getPackMetaLen_option, hsize, if_pos hsent] at hpost
    simp only [Option.pure_def, Option.some.injEq, Prod.mk.injEq] at hpost
    obtain ⟨rfl, rfl, rfl⟩ := hpost
    refine ⟨msg₁, hp, hsize ▸ hpos, htag, hrx.trans hrecver, hreq.trans hsize.symm, _, hbuf, ?_⟩
    rw [hpay, ← hsize]
    exact .bundled hd (hp.data ▸ hvals) hb
  · cases hd : isDataMsg msg with
    | false =>
      have hopt := hp.noPayload hd
      rw [if_pos hopt] at hpost
      simp only [Option.pure_def, Option.some.injEq, Prod.mk.injEq] at hpost
      obtain ⟨rfl, rfl, rfl⟩ := hpost
      refine ⟨msg₂, hp, hsize ▸ hpos, htag, hrx.trans hrecver, hreq.trans hsize.symm, _, hbuf, ?_⟩
      rw [hpay, hopt]
      exact .none hd
    | true =>
      obtain ⟨-, -, -, hopt⟩ := hp.payload hd
      rw [if_neg (by rw [hopt]; decide)] at hpost
      by_cases hlen : msg₂.msgMeta.valLen = 0
      · rw [if_pos (by omega)] at hpost
        simp only [Option.pure_def, Option.some.injEq, Prod.mk.injEq] at hpost
        obtain ⟨rfl, rfl, rfl⟩ := hpost
        refine ⟨msg₂, hp, hsize ▸ hpos, htag, hrx.trans hrecver, hreq.trans hsize.symm, _, hbuf, ?_⟩
        rw [hpay, hopt]
        exact .empty hd hb hlen
      · rw [if_neg (by omega)] at hpost
        obtain ⟨_, -, hpost⟩ := Option.bind_eq_some_iff.mp hpost
        obtain ⟨vals, hvals, hpost⟩ := Option.bind_eq_some_iff.mp hpost
        obtain ⟨tag, htag', hpost⟩ := Option.bind_eq_some_iff.mp hpost
        simp only [Option.pure_def, Option.some.injEq, Prod.mk.injEq] at hpost
        obtain ⟨rfl, rfl, rfl⟩ := hpost
        refine ⟨msg₂, hp, hsize ▸ hpos, htag, hrx.trans hrecver, hreq.trans hsize.symm, _, hbuf, ?_⟩
        rw [hpay, hopt, hrecver]
        exact .separate hd (hp.data ▸ hvals) hb hlen (hp.id ▸ htag')

/-! ### What the receiver reads -/

theorem isPushpullRequest_packMeta (qpNum : Nat) (m : Meta) (b : Buf) :
    isPushpullRequest (packMeta qpNum m b) =
      (decide (m.control.cmd = .empty) && !m.simpleApp && m.request) := by
  have hcode : ∀ cmd : Command, decide (enumCode Command.all cmd = enumCode Command.all .empty) =
      decide (cmd = .empty) := by
    intro cmd
    cases cmd <;> decide
  rw [isPushpullRequest, rawInt_packMeta_cmd, hcode, rawBool_packMeta (x := m.simpleApp) (by simp [fixedFields]),
    rawBool_packMeta (x := m.request) (by simp [fixedFields])]

theorem Posts.sender (h : Posts cfg van msg msg₁ req data) : nodeIdFromTag req.tag = van.id :=
  nodeIdFromTag_makeTag h.tag

theorem PostsPayload.fitsInt {option : Int} {payload : Option (Nat × Nat)}
    (h : PostsPayload cfg van msg msg₁ option payload data) : FitsInt 4 option := by
  cases h with
  | none => decide
  | bundled =>
    unfold getPackMetaLen
    exact fitsInt_bmod _
  | empty => decide
  | separate => decide

/-- The fields of the meta as the receiver has them. -/
structure Reads (msg msg₁ : Message) (option : Int) (raw : Buf) : Prop where
  option : rawInt raw RawMeta.option = option
  key : rawUint64 raw RawMeta.key = msg₁.msgMeta.key
  push : rawBool raw RawMeta.push = msg.msgMeta.push
  valLen : isDataMsg msg = true → rawInt raw RawMeta.valLen = msg₁.msgMeta.valLen
  sid : FitsInt 4 msg₁.msgMeta.sid → rawInt raw RawMeta.sid = msg₁.msgMeta.sid
  request : isPushpullRequest raw = isRequest msg

theorem Posts.reads (h : Posts cfg van msg msg₁ req data) (hp : Prepared van msg van' msg₁) :
    ∃ option, PostsPayload cfg van msg msg₁ option req.payload data ∧ Reads msg msg₁ option req.buf := by
  obtain ⟨option, hbuf, hpay⟩ := h.payload
  have hpush : msg₁.msgMeta.push = msg.msgMeta.push := by rw [hp.fields]
  refine ⟨option, hpay, ?_⟩
  rw [hbuf]
  refine ⟨rawInt_packMeta (by simp [fixedFields]) hpay.fitsInt, rawUint64_packMeta (by simp [fixedFields]), ?_,
    fun hd => rawInt_packMeta (by simp [fixedFields]) ?_,
    fun hsid => rawInt_packMeta (by simp [fixedFields]) hsid, ?_⟩
  · exact (rawBool_packMeta (x := msg₁.msgMeta.push) (by simp [fixedFields])).trans hpush
  · obtain ⟨vals, -, hval, -⟩ := hp.payload hd
    rw [hval]
    exact fitsInt_bmod _
  · rw [isPushpullRequest_packMeta, isRequest, isValidPushpull, hp.fields]

end UcxVan

end StepMesh
