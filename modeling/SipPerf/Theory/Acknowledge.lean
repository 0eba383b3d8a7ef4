import Mathlib.Data.List.Induction
import SipPerf.Core.AckStore
import SipPerf.Lib.Transition

/-!
# Acknowledging Again

A repeated 2xx is acknowledged again exactly as the first was, for as long as
the record of that is kept, and not at all otherwise.

Every record is filed under the hash of its dialog's Call-ID, and there it is
until its timer expires. So the table holds the acknowledgements that have
been made and have not expired, which is all that `Keeps` says, and the
history of the socket decides what a search finds. The Call-ID of a dialog
never changes, but that is what the slot of a record depends on, so it has to
be known of every event.

The records are filed by one hash function and searched by another. They
differ on bytes from 128 on, where a plain `char` is negative. The Call-ID of
an outgoing call is written in hexadecimal, so none of its bytes is. That of an
incoming call can have such bytes, but there are no records of these.

The request is encoded from the dialog, which other requests have changed in
the meantime. What they change is the local sequence number, and an ACK has
the number of the record instead and leaves that of the dialog alone.

## Main definitions

* `ackKeys`: The acknowledgements made in a history.
* `Live`: An acknowledgement that has been made and has not expired.
* `Keeps`: The table holds what is live.
* `Acknowledged`: The history has an acknowledgement for a message.

## Theorems

* `hashJoaatStr_eq`: The two hash functions agree on plain text.
* `sipDialogCmp_iff`: When a dialog matches a message.
* `ackStep_keeps`: Every event keeps the table in order.
* `exec_keeps`: So does every run.
* `acknowledges_again`: What a repeated answer leads to, after any run.
-/

namespace SipPerf

namespace AckStore

open Transition Buckets

/-! ## Plain text -/

/-- The characters are those on which signed and unsigned agree. -/
def Plain (str : Bytes) : Prop := ∀ b ∈ str, b < 128

theorem hexDigit_plain (n : Nat) (h : n < 16) : hexDigit n < 128 := by
  have hall : ∀ m : Fin 16, hexDigit m < 128 := by decide
  exact hall ⟨n, h⟩

theorem x64Strdup_plain (val : UInt64) : Plain (x64Strdup val) := by
  intro b hb
  rcases List.mem_map.mp hb with ⟨i, _, hi⟩
  rw [← hi]
  exact hexDigit_plain _ (Nat.mod_lt _ (by decide))

theorem foldl_plain : ∀ (str : Bytes) (hash : UInt32), Plain str →
    str.foldl (fun hash b => joaatMix hash (charToUInt32 b)) hash =
      str.foldl (fun hash b => joaatMix hash b.toUInt32) hash := by
  intro str
  induction str with
  | nil =>
      intro hash _
      simp only [List.foldl_nil]
  | cons b str ih =>
      intro hash h
      simp only [List.foldl_cons, charToUInt32, if_pos (h b List.mem_cons_self)]
      exact ih _ (fun c hc => h c (List.mem_cons_of_mem b hc))

/-- On plain text the two hash functions are one. -/
theorem hashJoaatStr_eq (str : Bytes) (h : Plain str) : hashJoaatStr str = hashJoaat str := by
  unfold hashJoaatStr hashJoaat
  rw [foldl_plain str 0 h]

/-! ## Dialogs -/

theorem sipDialogCmp_iff (d : Dialog) (msg : SipMsg) : sipDialogCmp d msg = true ↔
    d.callid = msg.callid ∧ d.ltag = localTag msg ∧ d.rtag = some (remoteTag msg) := by
  unfold sipDialogCmp
  by_cases hcallid : msg.callid = d.callid
  · by_cases hltag : localTag msg = d.ltag
    · rw [if_neg (not_not.mpr hcallid), if_neg (not_not.mpr hltag)]
      cases hrtag : d.rtag with
      | none => simp only [Bool.false_eq_true, reduceCtorEq, and_false]
      | some rtag =>
          simp only [hcallid, hltag, true_and, Option.some.injEq]
          by_cases hsame : remoteTag msg = rtag
          · simp only [hsame, ne_eq, not_true, if_false]
          · simp only [ne_eq, hsame, not_false_eq_true, if_true, Bool.false_eq_true, false_iff]
            exact fun hc => hsame hc.symm
    · rw [if_neg (not_not.mpr hcallid), if_pos hltag]
      simp only [Bool.false_eq_true, false_iff]
      exact fun hc => hltag hc.2.1.symm
  · rw [if_pos hcallid]
    simp only [Bool.false_eq_true, false_iff]
    exact fun hc => hcallid hc.1.symm

theorem sipDialogCreate_call (d : Dialog) (tag : Bytes) :
    (sipDialogCreate d tag).callid = d.callid ∧
      (sipDialogCreate d tag).outgoing = d.outgoing := by
  unfold sipDialogCreate
  cases d.rtag with
  | none => exact ⟨rfl, rfl⟩
  | some rtag => exact ⟨rfl, rfl⟩

/-- An ACK leaves the dialog as it is. -/
theorem sipsessSendAck_eq (s : SessSock) (a : Ack) (err : Nat) (d : Dialog)
    (hd : s.dialogs[a.dlg]? = some d) : sipsessSendAck s a err =
      ({ s with out := if err = 0 then s.out ++ [⟨.ack, d.callid, a.cseq⟩] else s.out }, err) := by
  have hset : s.dialogs.set a.dlg d = s.dialogs := by
    rcases List.getElem?_eq_some_iff.mp hd with ⟨hlt, hget⟩
    rw [← hget]
    exact List.set_getElem_self hlt
  unfold sipsessSendAck sipDrequestf
  simp only [hd, sipDialogEncode, ne_eq, not_true, if_false, hset]

theorem sipsessSendAck_dialogs (s : SessSock) (a : Ack) (err : Nat) :
    (sipsessSendAck s a err).1.dialogs = s.dialogs ∧ (sipsessSendAck s a err).1.htAck = s.htAck ∧
      (sipsessSendAck s a err).1.bsize = s.bsize := by
  cases hd : s.dialogs[a.dlg]? with
  | none => simp only [sipsessSendAck, sipDrequestf, hd, and_self]
  | some d =>
      rw [sipsessSendAck_eq s a err d hd]
      exact ⟨rfl, rfl, rfl⟩

theorem sipsessAckAgain_dialogs (s : SessSock) (msg : SipMsg) (err : Nat) :
    (sipsessAckAgain s msg err).1.dialogs = s.dialogs ∧
      (sipsessAckAgain s msg err).1.htAck = s.htAck ∧
      (sipsessAckAgain s msg err).1.bsize = s.bsize := by
  unfold sipsessAckAgain
  cases s.htAck.lookup (slotOf s (hashJoaat msg.callid)) (cmpHandler s msg) with
  | none => exact ⟨rfl, rfl, rfl⟩
  | some a => exact sipsessSendAck_dialogs s a err

/-- Whether or not an answer is acknowledged again, neither the table nor the
    dialogs change. -/
theorem responseHandler_dialogs (s : SessSock) (msg : SipMsg) (err : Nat) :
    (responseHandler s msg err).1.dialogs = s.dialogs ∧
      (responseHandler s msg err).1.htAck = s.htAck ∧
      (responseHandler s msg err).1.bsize = s.bsize := by
  unfold responseHandler
  split
  · exact ⟨rfl, rfl, rfl⟩
  · split
    · exact ⟨rfl, rfl, rfl⟩
    · exact sipsessAckAgain_dialogs s msg err

theorem sipsessAck_dialogs (s : SessSock) (dlg : Nat) (cseq : UInt32) (err : Nat) :
    (sipsessAck s dlg cseq err).1.dialogs = s.dialogs := by
  unfold sipsessAck
  cases s.dialogs[dlg]? with
  | none => rfl
  | some d => exact (sipsessSendAck_dialogs _ _ err).1

/-! ## The table -/

/-- The record an event makes, if it is an acknowledgement. -/
def ackKey : AckEvent → Option Ack
  | .ack dlg cseq _ => some ⟨dlg, cseq⟩
  | _ => none

/-- The acknowledgements made in a history. -/
def ackKeys (es : List AckEvent) : List Ack := es.filterMap ackKey

/-- The acknowledgement has been made and its timer has not expired. -/
def Live (es : List AckEvent) (a : Ack) : Prop :=
  a ∈ ackKeys es ∧ AckEvent.expire a.dlg a.cseq ∉ es

/-- The Call-ID of a dialog. -/
def callidAt (s : SessSock) (dlg : Nat) : Bytes :=
  match s.dialogs[dlg]? with
  | none => []
  | some d => d.callid

/-- The bucket of a record. -/
def ackSlot (s : SessSock) (a : Ack) : UInt32 := slotOf s (hashJoaatStr (callidAt s a.dlg))

/-- What `sipsess_ack` does to the table. -/
theorem sipsessAck_files (s : SessSock) (dlg : Nat) (cseq : UInt32) (err : Nat) (d : Dialog)
    (hd : s.dialogs[dlg]? = some d) :
    (sipsessAck s dlg cseq err).1.htAck =
        s.htAck.append (ackSlot s ⟨dlg, cseq⟩) ⟨dlg, cseq⟩ ∧
      (sipsessAck s dlg cseq err).1.bsize = s.bsize := by
  simp only [sipsessAck, hd, ackSlot, callidAt]
  exact (sipsessSendAck_dialogs _ ⟨dlg, cseq⟩ err).2

/-- The table holds what is live. Whatever has been acknowledged is an outgoing
    call, and the Call-IDs of these are plain text. -/
structure Keeps (es : List AckEvent) (s : SessSock) : Prop where
  filed : Filed s.htAck (ackSlot s) (Live es)
  known : ∀ a ∈ ackKeys es, ∃ d, s.dialogs[a.dlg]? = some d ∧ d.outgoing = true
  made : ∀ dlg cseq, AckEvent.expire dlg cseq ∈ es → ⟨dlg, cseq⟩ ∈ ackKeys es
  plain : ∀ d ∈ s.dialogs, d.outgoing = true → Plain d.callid

/-- The dialogs that were there are still there, on the same side of the same
    calls. -/
def SameCalls (s s' : SessSock) : Prop := ∀ (i : Nat) (d : Dialog), s.dialogs[i]? = some d →
  ∃ d', s'.dialogs[i]? = some d' ∧ d'.callid = d.callid ∧ d'.outgoing = d.outgoing

theorem sameCalls_of_eq (s s' : SessSock) (h : s'.dialogs = s.dialogs) : SameCalls s s' := by
  intro i d hd
  exact ⟨d, h ▸ hd, rfl, rfl⟩

theorem ackKeys_append (es : List AckEvent) (e : AckEvent) :
    ackKeys (es ++ [e]) = ackKeys es ++ (ackKey e).toList := by
  unfold ackKeys
  rw [List.filterMap_append]
  cases h : ackKey e with
  | none => rw [List.filterMap_cons_none h, List.filterMap_nil, Option.toList_none]
  | some a => rw [List.filterMap_cons_some h, List.filterMap_nil, Option.toList_some]

/-- An event that makes no record and ends none. -/
theorem keeps_other (es : List AckEvent) (s s' : SessSock) (e : AckEvent) (h : Keeps es s)
    (hack : ackKey e = none) (hexp : ∀ dlg cseq, e ≠ .expire dlg cseq) (htab : s'.htAck = s.htAck)
    (hbsize : s'.bsize = s.bsize) (hsame : SameCalls s s')
    (hplain : ∀ d ∈ s'.dialogs, d.outgoing = true → Plain d.callid) : Keeps (es ++ [e]) s' := by
  have hkeys : ackKeys (es ++ [e]) = ackKeys es := by
    rw [ackKeys_append, hack, Option.toList_none, List.append_nil]
  have hmem : ∀ dlg cseq, AckEvent.expire dlg cseq ∈ es ++ [e] ↔ AckEvent.expire dlg cseq ∈ es :=
    fun dlg cseq => by
      rw [List.mem_append, List.mem_singleton]
      exact ⟨fun hc => hc.resolve_right (fun heq => hexp dlg cseq heq.symm), Or.inl⟩
  -- The same records are live, in the same slots: a slot depends on the
  -- Call-ID only.
  refine ⟨?_, fun a ha => ?_, fun dlg cseq he => ?_, hplain⟩
  · rw [htab]
    refine filed_congr _ _ _ _ _ h.filed (fun a => ?_) (fun a ha => ?_)
    · unfold Live
      rw [hkeys, hmem]
    · rcases h.known a ha.1 with ⟨d, hd, _⟩
      rcases hsame a.dlg d hd with ⟨d', hd', hcallid, _⟩
      simp only [ackSlot, slotOf, callidAt, hbsize, hd, hd', hcallid]
  · rw [hkeys] at ha
    rcases h.known a ha with ⟨d, hd, hout⟩
    rcases hsame a.dlg d hd with ⟨d', hd', _, hside⟩
    exact ⟨d', hd', hside.trans hout⟩
  · rw [hkeys]
    exact h.made dlg cseq ((hmem dlg cseq).mp he)

/-- A dialog is made, in plain text if it is that of an outgoing call. -/
theorem keeps_new (es : List AckEvent) (s : SessSock) (e : AckEvent) (d : Dialog)
    (h : Keeps es s) (hack : ackKey e = none) (hexp : ∀ dlg cseq, e ≠ .expire dlg cseq)
    (hplain : d.outgoing = true → Plain d.callid) :
    Keeps (es ++ [e]) { s with dialogs := s.dialogs ++ [d] } := by
  refine keeps_other es s _ e h hack hexp rfl rfl (fun i x hx => ?_) (fun x hx => ?_)
  · have hlt : i < s.dialogs.length := (List.getElem?_eq_some_iff.mp hx).1
    exact ⟨x, by rw [List.getElem?_append_left hlt, hx], rfl, rfl⟩
  · rcases List.mem_append.mp hx with hold | hnew
    · exact h.plain x hold
    · rw [List.mem_singleton.mp hnew]
      exact hplain

/-- A dialog changes in something other than its Call-ID. -/
theorem keeps_set (es : List AckEvent) (s s' : SessSock) (e : AckEvent) (dlg : Nat) (d d' : Dialog)
    (h : Keeps es s) (hack : ackKey e = none) (hexp : ∀ dlg cseq, e ≠ .expire dlg cseq)
    (htab : s'.htAck = s.htAck) (hbsize : s'.bsize = s.bsize) (hd : s.dialogs[dlg]? = some d)
    (hset : s'.dialogs = s.dialogs.set dlg d') (hcallid : d'.callid = d.callid)
    (hside : d'.outgoing = d.outgoing) : Keeps (es ++ [e]) s' := by
  refine keeps_other es s s' e h hack hexp htab hbsize (fun i x hx => ?_) (fun x hx => ?_)
  · rw [hset]
    -- The dialog that changes, or another.
    by_cases hid : dlg = i
    · rw [← hid] at hx ⊢
      rw [hd, Option.some.injEq] at hx
      rw [← hx]
      exact ⟨d', List.getElem?_set_self (List.getElem?_eq_some_iff.mp hd).1, hcallid, hside⟩
    · exact ⟨x, by rw [List.getElem?_set_ne hid, hx], rfl, rfl⟩
  · rw [hset] at hx
    rcases List.mem_or_eq_of_mem_set hx with hold | hnew
    · exact h.plain x hold
    · rw [hnew, hcallid, hside]
      exact h.plain d (List.mem_of_getElem? hd)

/-- A new record is filed. -/
theorem keeps_ack (es : List AckEvent) (s s' : SessSock) (dlg : Nat) (cseq : UInt32) (err : Nat)
    (d : Dialog) (h : Keeps es s) (hnew : ⟨dlg, cseq⟩ ∉ ackKeys es)
    (hd : s.dialogs[dlg]? = some d) (hout : d.outgoing = true)
    (htab : s'.htAck = s.htAck.append (ackSlot s ⟨dlg, cseq⟩) ⟨dlg, cseq⟩)
    (hbsize : s'.bsize = s.bsize) (hdialogs : s'.dialogs = s.dialogs) :
    Keeps (es ++ [.ack dlg cseq err]) s' := by
  have hkeys : ackKeys (es ++ [.ack dlg cseq err]) = ackKeys es ++ [⟨dlg, cseq⟩] :=
    ackKeys_append es _
  have hmem : ∀ i c, AckEvent.expire i c ∈ es ++ [.ack dlg cseq err] ↔
      AckEvent.expire i c ∈ es := fun i c => by
    rw [List.mem_append, List.mem_singleton]
    exact ⟨fun hc => hc.resolve_right (by simp only [reduceCtorEq, not_false_eq_true]), Or.inl⟩
  refine ⟨?_, fun a ha => ?_, fun i c he => ?_, ?_⟩
  · rw [htab]
    refine filed_congr _ (ackSlot s) _ _ _ (filed_append _ _ _ _ h.filed (fun hc => hnew hc.1))
      (fun a => ?_) (fun a _ => ?_)
    · unfold Live
      rw [hkeys, hmem, List.mem_append, List.mem_singleton]
      constructor
      · rintro ⟨ha | ha, hexp⟩
        · exact Or.inl ⟨ha, hexp⟩
        · exact Or.inr ha
      · rintro (⟨ha, hexp⟩ | ha)
        · exact ⟨Or.inl ha, hexp⟩
        · -- A timer that has expired would have been that of an earlier record.
          rw [ha]
          exact ⟨Or.inr rfl, fun hc => hnew (h.made dlg cseq hc)⟩
    · unfold ackSlot slotOf callidAt
      rw [hbsize, hdialogs]
  · rw [hkeys, List.mem_append, List.mem_singleton] at ha
    rw [hdialogs]
    rcases ha with ha | ha
    · exact h.known a ha
    · rw [ha]
      exact ⟨d, hd, hout⟩
  · rw [hkeys, List.mem_append]
    exact Or.inl (h.made i c ((hmem i c).mp he))
  · rw [hdialogs]
    exact h.plain

/-- A record is unlinked when its timer expires. -/
theorem keeps_expire (es : List AckEvent) (s : SessSock) (a : Ack) (h : Keeps es s)
    (hlive : Live es a) : Keeps (es ++ [.expire a.dlg a.cseq]) (tmrHandler s a) := by
  have hkeys : ackKeys (es ++ [.expire a.dlg a.cseq]) = ackKeys es := by
    rw [ackKeys_append]
    exact List.append_nil _
  refine ⟨?_, fun b hb => ?_, fun i c he => ?_, h.plain⟩
  · refine filed_congr _ (ackSlot s) _ _ _ (filed_unlink _ _ _ a h.filed) (fun b => ?_)
      (fun b _ => rfl)
    unfold Live
    rw [hkeys, List.mem_append, List.mem_singleton, not_or, and_assoc]
    refine and_congr_right fun _ => and_congr_right fun _ => not_congr ?_
    rw [AckEvent.expire.injEq, Ack.ext_iff]
  · rw [hkeys] at hb
    exact h.known b hb
  · rw [hkeys]
    rw [List.mem_append, List.mem_singleton, AckEvent.expire.injEq] at he
    rcases he with he | ⟨hi, hc⟩
    · exact h.made i c he
    · rw [hi, hc]
      exact hlive.1

/-! ## Runs -/

theorem ackStep_keeps (es : List AckEvent) (s s' : SessSock) (e : AckEvent) (h : Keeps es s)
    (hone : (ackKeys (es ++ [e])).Nodup) (hstep : ackStep s e = some s') :
    Keeps (es ++ [e]) s' := by
  cases e with
  | alloc ltag callid lseq =>
      simp only [ackStep, Option.some.injEq] at hstep
      rw [← hstep]
      exact keeps_new es s _ _ h rfl (by simp only [ne_eq, reduceCtorEq, not_false_eq_true,
        implies_true]) (fun _ => x64Strdup_plain callid)
  | accept msg tag lseq =>
      simp only [ackStep] at hstep
      split at hstep
      · rw [← Option.some.inj hstep]
        exact keeps_new es s _ _ h rfl (by simp only [ne_eq, reduceCtorEq, not_false_eq_true,
          implies_true]) (fun hout => Bool.noConfusion hout)
      · exact absurd hstep (by simp only [reduceCtorEq, not_false_eq_true])
  | create dlg tag =>
      simp only [ackStep] at hstep
      cases hd : s.dialogs[dlg]? with
      | none => simp only [hd, reduceCtorEq] at hstep
      | some d =>
          simp only [hd, Option.some.injEq] at hstep
          rw [← hstep]
          refine keeps_set es s _ _ dlg d (sipDialogCreate d tag) h rfl
            (by simp only [ne_eq, reduceCtorEq, not_false_eq_true, implies_true]) rfl rfl hd rfl
            (sipDialogCreate_call d tag).1 (sipDialogCreate_call d tag).2
  | request dlg met err =>
      simp only [ackStep] at hstep
      split at hstep
      · rename_i hreq
        rw [← Option.some.inj hstep]
        have hd := List.getElem?_eq_getElem hreq.2
        refine keeps_set es s _ _ dlg s.dialogs[dlg] { s.dialogs[dlg] with
            lseq := s.dialogs[dlg].lseq + 1 } h rfl
          (by simp only [ne_eq, reduceCtorEq, not_false_eq_true, implies_true]) ?_ ?_ hd ?_ rfl rfl
        · simp only [sipDrequestf, hd]
        · simp only [sipDrequestf, hd]
        · simp only [sipDrequestf, hd, sipDialogEncode, if_pos hreq.1]
      · exact absurd hstep (by simp only [reduceCtorEq, not_false_eq_true])
  | ack dlg cseq err =>
      simp only [ackStep] at hstep
      cases hd : s.dialogs[dlg]? with
      | none => simp only [hd, reduceCtorEq] at hstep
      | some d =>
          simp only [hd] at hstep
          split at hstep
          · rename_i hout
            rw [← Option.some.inj hstep]
            -- The history has no two acknowledgements with the same key.
            have hnew : ⟨dlg, cseq⟩ ∉ ackKeys es := fun hc => by
              have hkeys : ackKeys (es ++ [.ack dlg cseq err]) = ackKeys es ++ [⟨dlg, cseq⟩] :=
                ackKeys_append es _
              rw [hkeys, List.nodup_append] at hone
              exact hone.2.2 _ hc _ (List.mem_singleton_self _) rfl
            rcases sipsessAck_files s dlg cseq err d hd with ⟨htab, hbsize⟩
            exact keeps_ack es s _ dlg cseq err d h hnew hd hout htab hbsize
              (sipsessAck_dialogs s dlg cseq err)
          · exact absurd hstep (by simp only [reduceCtorEq, not_false_eq_true])
  | expire dlg cseq =>
      simp only [ackStep] at hstep
      cases hd : s.dialogs[dlg]? with
      | none => simp only [hd, reduceCtorEq] at hstep
      | some d =>
          simp only [hd] at hstep
          split at hstep
          · rename_i hmem
            rw [← Option.some.inj hstep]
            -- A timer runs only for a record that is in the table.
            exact keeps_expire es s ⟨dlg, cseq⟩ h ((h.filed.mem _ _).mp hmem).1
          · exact absurd hstep (by simp only [reduceCtorEq, not_false_eq_true])
  | response msg err =>
      simp only [ackStep, Option.some.injEq] at hstep
      rw [← hstep]
      rcases responseHandler_dialogs s msg err with ⟨hdialogs, htab, hbsize⟩
      refine keeps_other es s _ _ h rfl (by simp only [ne_eq, reduceCtorEq, not_false_eq_true,
        implies_true]) htab hbsize (sameCalls_of_eq s _ hdialogs) ?_
      rw [hdialogs]
      exact h.plain

theorem sipsessListen_keeps (htsize : UInt32) : Keeps [] (sipsessListen htsize) := by
  refine ⟨?_, fun a ha => ?_, fun dlg cseq he => ?_, fun d hd => ?_⟩
  · refine filed_congr _ _ _ _ _ (filed_empty (ackSlot (sipsessListen htsize))) (fun a => ?_)
      (fun _ hc => hc.elim)
    simp only [Live, ackKeys, List.filterMap_nil, List.not_mem_nil, false_and]
  · exact absurd ha List.not_mem_nil
  · exact absurd he List.not_mem_nil
  · exact absurd hd List.not_mem_nil

theorem exec_keeps (htsize : UInt32) : ∀ (es : List AckEvent) (s : SessSock),
    exec ackStep (sipsessListen htsize) es = some s → (ackKeys es).Nodup → Keeps es s := by
  intro es
  -- From the end of the history, since what is live depends on all of it.
  induction es using List.reverseRecOn with
  | nil =>
      intro s h _
      simp only [exec, Option.some.injEq] at h
      rw [← h]
      exact sipsessListen_keeps htsize
  | append_singleton es e ih =>
      intro s h hone
      rcases (exec_append ackStep es [e] _ s).mp h with ⟨m, hm, hlast⟩
      rcases exec_cons ackStep m s e [] hlast with ⟨s', hs', hend⟩
      simp only [exec, Option.some.injEq] at hend
      rw [← hend]
      refine ackStep_keeps es m s' e (ih m hm ?_) hone hs'
      rw [ackKeys_append] at hone
      exact (List.nodup_append.mp hone).1

/-- The history has an acknowledgement that is live, of a dialog with the
    Call-ID and the tags of the message and with its sequence number. -/
def Acknowledged (es : List AckEvent) (s : SessSock) (msg : SipMsg) (dlg : Nat) (d : Dialog) :
    Prop :=
  (∃ err, AckEvent.ack dlg msg.cseqNum err ∈ es) ∧ AckEvent.expire dlg msg.cseqNum ∉ es ∧
    s.dialogs[dlg]? = some d ∧ d.callid = msg.callid ∧ d.ltag = localTag msg ∧
    d.rtag = some (remoteTag msg)

theorem mem_ackKeys (es : List AckEvent) (a : Ack) :
    a ∈ ackKeys es ↔ ∃ err, AckEvent.ack a.dlg a.cseq err ∈ es := by
  unfold ackKeys
  rw [List.mem_filterMap]
  constructor
  · rintro ⟨e, he, hkey⟩
    cases e with
    | ack dlg cseq err =>
        simp only [ackKey, Option.some.injEq] at hkey
        rw [← hkey]
        exact ⟨err, he⟩
    | alloc ltag callid lseq => simp only [ackKey, reduceCtorEq] at hkey
    | accept msg tag lseq => simp only [ackKey, reduceCtorEq] at hkey
    | create dlg tag => simp only [ackKey, reduceCtorEq] at hkey
    | request dlg met err => simp only [ackKey, reduceCtorEq] at hkey
    | expire dlg cseq => simp only [ackKey, reduceCtorEq] at hkey
    | response msg err => simp only [ackKey, reduceCtorEq] at hkey
  · rintro ⟨err, he⟩
    exact ⟨_, he, rfl⟩

theorem cmpHandler_iff (s : SessSock) (msg : SipMsg) (a : Ack) : cmpHandler s msg a = true ↔
    ∃ d, s.dialogs[a.dlg]? = some d ∧ sipDialogCmp d msg = true ∧ a.cseq = msg.cseqNum := by
  unfold cmpHandler
  cases hd : s.dialogs[a.dlg]? with
  | none => simp only [Bool.false_eq_true, reduceCtorEq, false_and, exists_false]
  | some d =>
      simp only [Option.some.injEq, exists_eq_left']
      by_cases hcmp : sipDialogCmp d msg = true
      · by_cases hseq : a.cseq = msg.cseqNum
        · simp only [hcmp, hseq, Bool.not_true, Bool.false_eq_true, if_false, ne_eq, not_true,
            and_self]
        · simp only [hcmp, hseq, Bool.not_true, Bool.false_eq_true, if_false, ne_eq,
            not_false_eq_true, if_true, and_false]
      · have hcmp' : sipDialogCmp d msg = false := by simpa using hcmp
        simp only [hcmp', Bool.not_false, if_true, Bool.false_eq_true, false_and]

/-- A search that finds a record finds one for the message. -/
theorem lookup_acknowledged (es : List AckEvent) (s : SessSock) (h : Keeps es s) (msg : SipMsg)
    (a : Ack)
    (ha : s.htAck.lookup (slotOf s (hashJoaat msg.callid)) (cmpHandler s msg) = some a) :
    a.cseq = msg.cseqNum ∧ ∃ d, Acknowledged es s msg a.dlg d := by
  rcases lookup_eq_some _ _ _ h.filed _ _ a ha with ⟨hlive, htest⟩
  rcases (cmpHandler_iff s msg a).mp htest with ⟨d, hd, hcmp, hseq⟩
  refine ⟨hseq, d, ?_, ?_, hd, (sipDialogCmp_iff d msg).mp hcmp⟩
  · rw [← hseq]
    exact (mem_ackKeys es a).mp hlive.1
  · rw [← hseq]
    exact hlive.2

/-- A search finds a record if there is one for the message. -/
theorem acknowledged_lookup (es : List AckEvent) (s : SessSock) (h : Keeps es s) (msg : SipMsg)
    (dlg : Nat) (d : Dialog) (hack : Acknowledged es s msg dlg d) :
    ∃ a, s.htAck.lookup (slotOf s (hashJoaat msg.callid)) (cmpHandler s msg) = some a := by
  rcases hack with ⟨hmade, hexp, hd, hmatch⟩
  have hkey : ⟨dlg, msg.cseqNum⟩ ∈ ackKeys es := (mem_ackKeys es ⟨dlg, msg.cseqNum⟩).mpr hmade
  have hplain : Plain d.callid := by
    rcases h.known _ hkey with ⟨d', hd', hout⟩
    rw [hd, Option.some.injEq] at hd'
    exact h.plain d (List.mem_of_getElem? hd) (hd' ▸ hout)
  refine lookup_of_live _ _ _ h.filed _ _ ⟨dlg, msg.cseqNum⟩ ⟨hkey, hexp⟩
    ((cmpHandler_iff s msg _).mpr ⟨d, hd, (sipDialogCmp_iff d msg).mpr hmatch, rfl⟩) ?_
  -- It was filed by the one hash function, and is looked for by the other.
  simp only [ackSlot, callidAt, hd]
  rw [hashJoaatStr_eq d.callid hplain, hmatch.1]

/-- After any run on one socket with at most one acknowledgement for each
    dialog and sequence number: a message finds a record exactly if the
    acknowledgement it repeats has been made and has not expired. If it does,
    what is sent is an ACK with the Call-ID of that dialog and the sequence
    number that was acknowledged; if not, the error is `ENOENT` and nothing
    changes. Acknowledging leaves all dialogs as they are. -/
theorem acknowledges_again (htsize : UInt32) (es : List AckEvent) (s : SessSock)
    (hrun : exec ackStep (sipsessListen htsize) es = some s) (hone : (ackKeys es).Nodup)
    (msg : SipMsg) (err : Nat) :
    ((∃ a, s.htAck.lookup (slotOf s (hashJoaat msg.callid)) (cmpHandler s msg) = some a) ↔
        ∃ dlg d, Acknowledged es s msg dlg d) ∧
      (∀ a, s.htAck.lookup (slotOf s (hashJoaat msg.callid)) (cmpHandler s msg) = some a →
        ∃ d, Acknowledged es s msg a.dlg d ∧ sipsessAckAgain s msg err =
          ({ s with
            out := if err = 0 then s.out ++ [⟨.ack, d.callid, msg.cseqNum⟩] else s.out }, err)) ∧
      ((¬ ∃ dlg d, Acknowledged es s msg dlg d) → sipsessAckAgain s msg err = (s, enoent)) ∧
      (sipsessAckAgain s msg err).1.dialogs = s.dialogs ∧
      ∀ dlg cseq, (sipsessAck s dlg cseq err).1.dialogs = s.dialogs := by
  have h := exec_keeps htsize es s hrun hone
  refine ⟨⟨?_, ?_⟩, fun a ha => ?_, fun hnone => ?_, (sipsessAckAgain_dialogs s msg err).1,
    fun dlg cseq => sipsessAck_dialogs s dlg cseq err⟩
  · rintro ⟨a, ha⟩
    rcases lookup_acknowledged es s h msg a ha with ⟨_, d, hd⟩
    exact ⟨a.dlg, d, hd⟩
  · rintro ⟨dlg, d, hd⟩
    exact acknowledged_lookup es s h msg dlg d hd
  · rcases lookup_acknowledged es s h msg a ha with ⟨hseq, d, hd⟩
    refine ⟨d, hd, ?_⟩
    simp only [sipsessAckAgain, ha]
    rw [sipsessSendAck_eq s a err d hd.2.2.1, hseq]
  · cases hl : s.htAck.lookup (slotOf s (hashJoaat msg.callid)) (cmpHandler s msg) with
    | none => simp only [sipsessAckAgain, hl]
    | some a =>
        rcases lookup_acknowledged es s h msg a hl with ⟨_, d, hd⟩
        exact absurd ⟨a.dlg, d, hd⟩ hnone

/-- The INVITE of a call that comes in with a Call-ID of its own kind. -/
def incomingInvite : SipMsg := ⟨true, 0, [200, 201], [67], [], 7, .invite⟩

/-- Two calls whose records share a bucket, and one that comes in. The first is
    hung up, which moves its sequence number on, and the record of the second
    expires. -/
def twoCalls : List AckEvent :=
  [.alloc 1 10 100, .alloc 2 11 200, .request 0 .invite 0, .request 1 .invite 0,
    .accept incomingInvite 3 300, .create 0 [65], .create 1 [66], .ack 0 100 0, .ack 1 200 0,
    .request 2 .bye 0, .request 0 .bye 0, .expire 1 200]

/-- The answer to the first call. -/
def firstAnswer : SipMsg := ⟨false, 200, x64Strdup 10, x64Strdup 1, [65], 100, .invite⟩

/-- The answer to the second. -/
def secondAnswer : SipMsg := ⟨false, 200, x64Strdup 11, x64Strdup 2, [66], 200, .invite⟩

/-- The first answer is acknowledged again, with its own sequence number, and
    the second is not. -/
theorem acknowledges_again_run :
    ∃ s, exec ackStep (sipsessListen 1) twoCalls = some s ∧
      (sipsessAckAgain s firstAnswer 0).1.out = s.out ++ [⟨.ack, x64Strdup 10, 100⟩] ∧
      sipsessAckAgain s secondAnswer 0 = (s, enoent) := by
  have hex : (exec ackStep (sipsessListen 1) twoCalls).any (fun s =>
      s.htAck.lookup (slotOf s (hashJoaat firstAnswer.callid)) (cmpHandler s firstAnswer) =
        some ⟨0, 100⟩ ∧
      s.htAck.lookup (slotOf s (hashJoaat secondAnswer.callid)) (cmpHandler s secondAnswer) =
        none) = true := by
    decide +kernel
  rcases (Option.any_eq_true _ _).mp hex with ⟨s, hs, hP⟩
  rcases of_decide_eq_true hP with ⟨hfirst, hsecond⟩
  rcases acknowledges_again 1 twoCalls s hs (by decide +kernel) firstAnswer 0 with
    ⟨_, hsent, _⟩
  rcases acknowledges_again 1 twoCalls s hs (by decide +kernel) secondAnswer 0 with
    ⟨hfinds, _, hnothing, _⟩
  refine ⟨s, hs, ?_, hnothing (fun hc => ?_)⟩
  · rcases hsent ⟨0, 100⟩ hfirst with ⟨d, hd, heq⟩
    have hcallid : d.callid = x64Strdup 10 := hd.2.2.2.1
    rw [heq]
    simp only [hcallid, if_true, firstAnswer]
  · rcases hfinds.mpr hc with ⟨a, ha⟩
    rw [hsecond] at ha
    exact absurd ha (by simp only [reduceCtorEq, not_false_eq_true])

end AckStore

end SipPerf
