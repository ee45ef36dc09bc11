import Mathlib.Data.UInt
import StepMesh.UcxVanSpec

/-!
# Payloads over the UCX van

The sender decides from the device, the threshold and the lengths whether a payload goes behind its meta or
into a transfer of its own. The receiver decides from the option of the meta, which has the length of the
meta for a payload behind it. `transfer_matched_iff` says when the two agree: the length of the payload has
to survive the `int` it is put into, and an empty payload has to go behind its meta. One that does not, since
it is not in the memory of the CPU or the threshold is negative, is announced and never sent
(`empty_payload_unmatched`).
-/

namespace StepMesh

namespace UcxVan

open Buf

/-- What is posted for the payload of `msg` is what the receiver waits for: a transfer of its own for a
receive of the same length and tag, a payload right behind the meta for a copy from there, and nothing for a
message without a payload. -/
def Matched (msg : Message) (req : MetaTxReq) : Option DataTxReq → RecvAction → Prop
  | some d, .recv _ count tag => d.count = count ∧ d.tag = tag
  | none, .copy _ off len =>
    off = req.size ∧ ∃ vals, msg.data[1]? = some vals ∧ req.payload = some (vals.ptr, len) ∧ len = vals.size
  | none, .justMeta => isDataMsg msg = false
  | _, _ => False

/-- The length of the payload survives the `int` of `val_len`, and an empty payload goes behind the meta. -/
def PayloadFits (cfg : UcxCfg) (msg : Message) : Prop :=
  isDataMsg msg = true → ∀ vals, msg.data[1]? = some vals →
    sizeT ((vals.size : Int).bmod (2 ^ 32)) = vals.size ∧
      (vals.size = 0 → msg.msgMeta.srcDevType = .cpu ∧ 0 ≤ cfg.shortSendThresh)

variable {cfg : UcxCfg} {van van' rcv rcv' : UcxVan} {msg msg₁ : Message} {req : MetaTxReq}
  {data : Option DataTxReq} {act : RecvAction}

/-- The three things `PostRecvData` can do, by the option. -/
theorem postRecvData_eq_some {raw : Buf} {sender : NodeId} (h : rcv.postRecvData raw sender = some (rcv', act)) :
    (rawInt raw RawMeta.option = ucxOptionMeta ∧ act = .justMeta ∧ rcv'.rxPool.wPool = rcv.rxPool.wPool) ∨
      ∃ buffer rxPool, rcv'.rxPool.wPool = rxPool.wPool ∧ rcv.rxPool.getRxBuffer (rawUint64 raw RawMeta.key) sender
          (sizeT (rawInt raw RawMeta.valLen)) (rawBool raw RawMeta.push) = some (buffer, rxPool) ∧
        ((0 < rawInt raw RawMeta.option ∧
            act = .copy buffer (rawInt raw RawMeta.option) (sizeT (rawInt raw RawMeta.valLen))) ∨
          rawInt raw RawMeta.option = ucxOptionData ∧ ∃ tag,
            makeTag sender .ucxTagData (rawUint64 raw RawMeta.key) = some tag ∧
            act = .recv buffer (sizeT (rawInt raw RawMeta.valLen)) tag) := by
  unfold postRecvData at h
  dsimp only at h
  by_cases hm : rawInt raw RawMeta.option = ucxOptionMeta
  · rw [if_pos hm] at h
    simp only [Option.pure_def, Option.some.injEq, Prod.mk.injEq] at h
    obtain ⟨rfl, rfl⟩ := h
    exact .inl ⟨hm, rfl, rfl⟩
  · rw [if_neg hm] at h
    obtain ⟨⟨buffer, rxPool⟩, hbuf, h⟩ := Option.bind_eq_some_iff.mp h
    dsimp only at h
    split_ifs at h with hpos
    · simp only [Option.pure_def, Option.some.injEq, Prod.mk.injEq] at h
      obtain ⟨rfl, rfl⟩ := h
      exact .inr ⟨buffer, rxPool, rfl, hbuf, .inl ⟨hpos, rfl⟩⟩
    · obtain ⟨_, hg, h⟩ := Option.bind_eq_some_iff.mp h
      obtain ⟨tag, htag, h⟩ := Option.bind_eq_some_iff.mp h
      simp only [Option.pure_def, Option.some.injEq, Prod.mk.injEq] at h
      obtain ⟨rfl, rfl⟩ := h
      exact .inr ⟨buffer, rxPool, rfl, hbuf, .inr ⟨by simpa [guard] using hg, tag, htag, rfl⟩⟩

theorem act_of_option_pos {raw : Buf} {sender : NodeId} (h : rcv.postRecvData raw sender = some (rcv', act))
    (hpos : 0 < rawInt raw RawMeta.option) :
    ∃ buffer, act = .copy buffer (rawInt raw RawMeta.option) (sizeT (rawInt raw RawMeta.valLen)) := by
  rcases postRecvData_eq_some h with ⟨hopt, -⟩ | ⟨buffer, -, -, -, ⟨-, hact⟩ | ⟨hopt, -⟩⟩
  · rw [hopt] at hpos
    exact absurd hpos (by decide)
  · exact ⟨buffer, hact⟩
  · rw [hopt] at hpos
    exact absurd hpos (by decide)

theorem act_of_optionData {raw : Buf} {sender : NodeId} (h : rcv.postRecvData raw sender = some (rcv', act))
    (hopt : rawInt raw RawMeta.option = ucxOptionData) :
    ∃ buffer tag, makeTag sender .ucxTagData (rawUint64 raw RawMeta.key) = some tag ∧
      act = .recv buffer (sizeT (rawInt raw RawMeta.valLen)) tag := by
  rcases postRecvData_eq_some h with ⟨hm, -⟩ | ⟨buffer, -, -, -, ⟨hpos, -⟩ | ⟨-, tag, htag, hact⟩⟩
  · exact absurd (hopt.symm.trans hm) (by decide)
  · rw [hopt] at hpos
    exact absurd hpos (by decide)
  · exact ⟨buffer, tag, htag, hact⟩

theorem act_of_optionMeta {raw : Buf} {sender : NodeId} (h : rcv.postRecvData raw sender = some (rcv', act))
    (hopt : rawInt raw RawMeta.option = ucxOptionMeta) : act = .justMeta := by
  rcases postRecvData_eq_some h with ⟨-, hact, -⟩ | ⟨-, -, -, -, ⟨hpos, -⟩ | ⟨hd, -⟩⟩
  · exact hact
  · rw [hopt] at hpos
    exact absurd hpos (by decide)
  · exact absurd (hopt.symm.trans hd) (by decide)

theorem transfer_matched_iff (cfg : UcxCfg) (van rcv : UcxVan) (msg : Message)
    (h : van.sendMsg cfg msg = some (van', req, data))
    (hr : rcv.postRecvData req.buf (nodeIdFromTag req.tag) = some (rcv', act)) :
    Matched msg req data act ↔ PayloadFits cfg msg := by
  obtain ⟨msg₁, hprep, hposts⟩ := sendMsg_eq_some h
  rw [hposts.sender] at hr
  obtain ⟨option, hpay, hreads⟩ := hposts.reads hprep
  have hcpu : msg₁.msgMeta.srcDevType = msg.msgMeta.srcDevType := by rw [hprep.fields]
  have hbundles : isDataMsg msg = true → (bundles cfg msg₁ = true ↔
      msg.msgMeta.srcDevType = .cpu ∧ msg₁.msgMeta.valLen ≤ cfg.shortSendThresh) := by
    intro hd
    rw [bundles, hprep.isDataMsg_eq, hd, hcpu]
    simp
  have hval : isDataMsg msg = true → ∀ vals, msg.data[1]? = some vals →
      msg₁.msgMeta.valLen = (vals.size : Int).bmod (2 ^ 32) := by
    intro hd vals hvals
    obtain ⟨vals', hvals', hval, -⟩ := hprep.payload hd
    rwa [Option.some.inj (hvals.symm.trans hvals')]
  have hsize := hposts.size
  have hpos := hposts.pos
  generalize hbehind : req.payload = payload at hpay
  cases hpay with
  | none hd =>
    have hact := act_of_optionMeta hr hreads.option
    subst hact
    exact iff_of_true hd fun hd' => absurd (hd.symm.trans hd') (by decide)
  | @bundled hd vals hvals hb =>
    obtain ⟨hdev, hle⟩ := (hbundles hd).mp hb
    obtain ⟨buffer, hact⟩ := act_of_option_pos hr (by rw [hreads.option]; exact hpos)
    rw [hreads.option, hreads.valLen hd] at hact
    subst hact
    constructor
    · rintro ⟨-, vals', hvals', -, heq⟩ - vals'' hvals''
      obtain rfl := Option.some.inj (hvals'.symm.trans hvals'')
      rw [← hval hd vals' hvals']
      refine ⟨heq, fun hz => ⟨hdev, ?_⟩⟩
      rw [hval hd vals' hvals', hz] at hle
      simpa using hle
    · intro hfits
      have heq := (hfits hd vals hvals).1
      rw [← hval hd vals hvals] at heq
      exact ⟨hsize.symm, vals, hvals, hbehind, heq⟩
  | empty hd hb hzero =>
    obtain ⟨buffer, tag, -, hact⟩ := act_of_optionData hr hreads.option
    subst hact
    refine iff_of_false (fun hm => hm) fun hfits => ?_
    obtain ⟨vals, hvals, hv, -⟩ := hprep.payload hd
    obtain ⟨heq, hempty⟩ := hfits hd vals hvals
    rw [← hv, hzero] at heq
    obtain ⟨hdev, hthresh⟩ := hempty heq.symm
    exact absurd ((hbundles hd).mpr ⟨hdev, by rw [hzero]; exact hthresh⟩) (by rw [hb]; decide)
  | @separate hd vals hvals hb hne tag htag =>
    obtain ⟨buffer, tag', htag', hact⟩ := act_of_optionData hr hreads.option
    rw [hreads.key, htag] at htag'
    obtain rfl := Option.some.inj htag'
    rw [hreads.valLen hd, hval hd vals hvals] at hact
    subst hact
    constructor
    · rintro ⟨heq, -⟩ - vals' hvals'
      obtain rfl := Option.some.inj (hvals.symm.trans hvals')
      refine ⟨heq.symm, fun hz => absurd ?_ hne⟩
      rw [hval hd vals hvals, hz]
      rfl
    · intro hfits
      exact ⟨(hfits hd vals hvals).1.symm, rfl⟩

/-- Worker 9 pushes `size` bytes of memory on a device to server 8. -/
def samplePush (dev : DeviceType) (size : Nat) : Message where
  msgMeta := { request := true, push := true, recver := 8, srcDevType := dev }
  data := [{ size := 8 }, { ptr := 4096, size := size }]
  keys := [7]

/-- What is posted for the payload, and what the receiver does. -/
def sendAndReceive (cfg : UcxCfg) (msg : Message) : Option (Option (Nat × Nat) × Option DataTxReq × RecvAction) :=
  (({ id := 9 } : UcxVan).sendMsg cfg msg).bind fun r =>
    (({ id := 8 } : UcxVan).postRecvData r.2.1.buf (nodeIdFromTag r.2.1.tag)).map fun r' =>
      (r.2.1.payload, r.2.2, r'.2)

theorem transfer_matched_short : ∃ van' req data rcv' act,
    ({ id := 9 } : UcxVan).sendMsg {} (samplePush .cpu 10) = some (van', req, data) ∧
      ({ id := 8 } : UcxVan).postRecvData req.buf (nodeIdFromTag req.tag) = some (rcv', act) ∧
      Matched (samplePush .cpu 10) req data act := by
  have hrun : sendAndReceive {} (samplePush .cpu 10) =
      some (some (4096, 10), none, .copy (.block 0) 288 10) := by decide +kernel
  obtain ⟨⟨van', req, data⟩, h, hrest⟩ := Option.bind_eq_some_iff.mp hrun
  obtain ⟨⟨rcv', act⟩, hr, -⟩ := Option.map_eq_some_iff.mp hrest
  refine ⟨van', req, data, rcv', act, h, hr, (transfer_matched_iff {} _ _ _ h hr).mpr ?_⟩
  rintro - vals hvals
  obtain rfl := Option.some.inj hvals
  decide

/-- The receiver waits for an empty payload of a GPU that is not sent. The length of one of 2 GiB is read as
a negative number. -/
theorem empty_payload_unmatched :
    sendAndReceive {} (samplePush .gpu 0) =
        some (none, none, .recv (.block 0) 0 (2 ^ 63 + 9 * 2 ^ 48 + 7)) ∧
      sendAndReceive {} (samplePush .cpu (2 ^ 31)) = some (some (4096, 2 ^ 64 - 2 ^ 31), none,
        .copy (.block 0) 288 (2 ^ 64 - 2 ^ 31)) := by
  decide +kernel

end UcxVan

end StepMesh
