import Mathlib.Data.List.TakeWhile
import PowerDNS.Auth.SlaveTransfer

/-!
# How a transfer is cut into messages

A master sends the records of a zone, the SOA record first and last, in messages of its choice.
`axfrChunk` counts SOA records over the messages, takes the last record off the message in which the
second one is, and does not read another one; `suck` feeds what it gets.

A `Transfer` is a run of `suck` with the messages the master has yet to send, while no call of the
backend goes wrong. `stream_fed` says what it comes to for a stream without further SOA records,
whichever way it is cut: the records of the zone in front of the closing SOA are fed, each once and
in their order, up to a type the database cannot store, and nothing is read behind the closing SOA.
-/

namespace PowerDNS

open List Bool

namespace SuckRun

/-- A run of `suck`, and the messages that it has not read. -/
structure Transfer where
  run : SuckRun
  left : List (List TextRR)
  deriving DecidableEq

namespace Transfer

/-- The next call of the run returns. Where there is no message left the connection is closed. -/
def advance (t : Transfer) : Transfer :=
  match t.run.phase with
  | .ended _ => t
  | .axfrChunk =>
    match t.left with
    | [] => { t with run := t.run.step (.throws .ResolverException) }
    | res :: left => { run := t.run.step (.message res), left }
  | _ => { t with run := t.run.step (.returns true) }

/-- The run comes to another state. -/
def Leads (t t' : Transfer) : Prop := ∃ n, advance^[n] t = t'

/-- A transfer of a zone. -/
def start (domain : Octets) (messages : List (List TextRR)) : Transfer := ⟨SuckRun.start domain, messages⟩

end Transfer

/-- A type that a database can store. -/
def storable (i : TextRR) : Bool := i.qtype < 1024

/-- The records of the zone. -/
def inZone (domain : Octets) (rrs : List TextRR) : List TextRR := rrs.filter fun i => endsOn i.qname domain

/-- Behind `before` the records of `zone` were fed, up to a type that cannot be stored: then the
transaction was aborted, else it was committed, and the messages `later` were not read. -/
structure Transferred (before : List (TextRR × Answer)) (zone : List TextRR) (later : List (List TextRR))
    (t : Transfer) : Prop where
  ended : t.run.phase = .ended none
  fed : t.run.fed = before ++ (zone.takeWhile storable).map fun i => (i, .returns true)
  commits : t.run.commits = if zone.all storable then 1 else 0
  aborts : t.run.aborts = if zone.all storable then 0 else 1
  left : zone.all storable = true → t.left = later

namespace Transfer

variable {t t' t'' : Transfer} {s : SuckRun} {left : List (List TextRR)}

theorem Leads.refl (t : Transfer) : t.Leads t := ⟨0, rfl⟩

theorem Leads.trans (h : t.Leads t') (h' : t'.Leads t'') : t.Leads t'' := by
  obtain ⟨n, rfl⟩ := h
  obtain ⟨m, rfl⟩ := h'
  exact ⟨m + n, Function.iterate_add_apply _ m n t⟩

theorem Leads.head (h : t.advance.Leads t') : t.Leads t' := Leads.trans ⟨1, rfl⟩ h

/-- The phase a run was in does not matter for what follows a chunk. -/
theorem feed_phase (s : SuckRun) (phase : SuckPhase) (recs : List TextRR) :
    { s with phase }.feed recs = s.feed recs := by
  induction recs with
  | nil => rfl
  | cons i recs ih =>
    unfold SuckRun.feed
    rw [ih]
    rfl

theorem inZone_cons (domain : Octets) (i : TextRR) (recs : List TextRR) :
    inZone domain (i :: recs) = if endsOn i.qname domain then i :: inZone domain recs else inZone domain recs := by
  unfold inZone
  rw [filter_cons]

/-- The records that were fed, each with success. -/
def fedWith (s : SuckRun) (recs : List TextRR) : SuckRun :=
  { s with fed := s.fed ++ recs.map fun i => (i, .returns true) }

/-- The transaction is aborted. -/
def aborted (s : SuckRun) : SuckRun := { s with phase := .abortTransaction, aborts := s.aborts + 1 }

/-- One record is fed. -/
theorem feed_record {i : TextRR} {recs : List TextRR} (hzone : endsOn i.qname s.domain = true)
    (hstorable : storable i = true) :
    Leads ⟨s.feed (i :: recs), left⟩ ⟨(fedWith s [i]).feed recs, left⟩ := by
  have hfeed : s.feed (i :: recs) = { s with phase := .feedRecord i recs } := by
    rw [SuckRun.feed, hzone]
    have htype : ¬ 1024 ≤ i.qtype := by
      rw [UInt16.not_le]
      exact of_decide_eq_true hstorable
    simp [htype]
  rw [hfeed]
  refine Leads.head ?_
  have hnext := feed_phase (fedWith s [i]) (.feedRecord i recs) recs
  rw [← hnext]
  exact .refl _

/-- **A chunk.** Its records of the zone are fed, up to one that cannot be stored. -/
theorem feed_leads (hfirst : s.first = false) (recs : List TextRR) :
    ((inZone s.domain recs).all storable = true →
        Leads ⟨s.feed recs, left⟩ ⟨(fedWith s (inZone s.domain recs)).feed [], left⟩) ∧
      ((inZone s.domain recs).all storable = false →
        Leads ⟨s.feed recs, left⟩ ⟨aborted (fedWith s ((inZone s.domain recs).takeWhile storable)), left⟩) := by
  induction recs generalizing s with
  | nil =>
    refine ⟨fun _ => ?_, fun h => (by cases h)⟩
    rw [show fedWith s (inZone s.domain []) = s from by simp [fedWith, inZone]]
    exact .refl _
  | cons i recs ih =>
    rw [inZone_cons]
    cases hzone : endsOn i.qname s.domain with
    | false =>
      -- out of zone
      have hskip : s.feed (i :: recs) = s.feed recs := by
        rw [SuckRun.feed, hzone]
        rfl
      rw [if_neg Bool.false_ne_true, hskip]
      exact ih hfirst
    | true =>
      rw [if_pos rfl]
      cases hstorable : storable i with
      | true =>
        obtain ⟨hall, hstop⟩ := @ih (fedWith s [i]) hfirst
        have hmore : ∀ zone : List TextRR, fedWith (fedWith s [i]) zone = fedWith s (i :: zone) := fun zone => by
          simp [fedWith]
        rw [all_cons, hstorable, Bool.true_and, takeWhile_cons_of_pos hstorable,
          ← hmore (inZone s.domain recs), ← hmore (List.takeWhile storable _)]
        exact ⟨fun h => (feed_record hzone hstorable).trans (hall h),
          fun h => (feed_record hzone hstorable).trans (hstop h)⟩
      | false =>
        have hthrows : s.feed (i :: recs) = s.handle .DBException := by
          rw [SuckRun.feed, hzone]
          have htype : 1024 ≤ i.qtype := by
            rw [← UInt16.not_lt]
            exact of_decide_eq_false hstorable
          simp [htype]
        have hnone : (i :: inZone s.domain recs).takeWhile storable = [] :=
          takeWhile_cons_of_neg (by rw [hstorable]; exact false_ne_true)
        rw [all_cons, hstorable, Bool.false_and, hnone, hthrows]
        refine ⟨fun h => (by cases h), fun _ => ?_⟩
        have haborted : s.handle .DBException = aborted (fedWith s []) := by
          rw [SuckRun.handle, if_pos (by rfl), if_neg (by rw [hfirst]; exact false_ne_true)]
          simp [aborted, fedWith]
        rw [haborted]
        exact .refl _

/-- A message was read, and the transaction is under way. -/
structure Received (s : SuckRun) (res : List TextRR) (s' : SuckRun) : Prop where
  first : s'.first = false
  domain : s'.domain = s.domain
  soacount : s'.d_soacount = s.d_soacount + soaCount res
  fed : s'.fed = s.fed
  commits : s'.commits = s.commits
  aborts : s'.aborts = s.aborts

/-- A message is read, and its chunk is next. -/
theorem message_leads (hphase : s.phase = .axfrChunk) (res : List TextRR) :
    ∃ s', Received s res s' ∧
      Leads ⟨s, res :: left⟩ ⟨s'.feed (chunk (s.d_soacount + soaCount res) res), left⟩ := by
  have hadvance : advance ⟨s, res :: left⟩ = ⟨s.receive res, left⟩ := by
    unfold advance step
    rw [hphase]
  cases hfirst : s.first with
  | true =>
    refine ⟨{ s with
      d_soacount := s.d_soacount + soaCount res, received := s.received ++ res
      first := false, started := some true }, ⟨rfl, rfl, rfl, rfl, rfl, rfl⟩, Leads.head ?_⟩
    have hreceive : s.receive res =
        { s with
          d_soacount := s.d_soacount + soaCount res, received := s.received ++ res
          phase := .startTransaction (chunk (s.d_soacount + soaCount res) res) } := if_pos hfirst
    rw [hadvance, hreceive]
    refine Leads.head ?_
    rw [← feed_phase _ (.startTransaction (chunk (s.d_soacount + soaCount res) res))]
    exact .refl _
  | false =>
    refine ⟨{ s with d_soacount := s.d_soacount + soaCount res, received := s.received ++ res },
      ⟨hfirst, rfl, rfl, rfl, rfl, rfl⟩, Leads.head ?_⟩
    have hreceive : s.receive res =
        { s with d_soacount := s.d_soacount + soaCount res, received := s.received ++ res }.feed
          (chunk (s.d_soacount + soaCount res) res) := if_neg (by rw [hfirst]; exact false_ne_true)
    rw [hadvance, hreceive]
    exact .refl _

/-- The transaction is aborted, and the run is over. -/
theorem aborted_leads (s : SuckRun) : Leads ⟨aborted s, left⟩ ⟨{ aborted s with phase := .ended none }, left⟩ :=
  ⟨1, rfl⟩

/-- The closing SOA was seen: the transaction is committed, and the run is over. -/
theorem committed_leads (hover : 1 < s.d_soacount) :
    Leads ⟨s.feed [], left⟩ ⟨{ s with phase := .ended none, commits := s.commits + 1 }, left⟩ := by
  rw [SuckRun.feed, if_pos hover]
  exact ⟨2, rfl⟩

theorem soaCount_append (rrs rrs' : List TextRR) : soaCount (rrs ++ rrs') = soaCount rrs + soaCount rrs' :=
  countP_append

/-- **The messages of a transfer**, of which the one with the closing SOA is the last. -/
theorem messages_lead {front : List TextRR} {closing : TextRR} (hclosing : closing.qtype = QType.SOA)
    {messages later : List (List TextRR)} (hne : ∀ res ∈ messages, res ≠ [])
    (hflat : messages.flatten = front ++ [closing]) (hphase : s.phase = .axfrChunk)
    (hsoa : s.d_soacount + soaCount front = 1) (hcommits : s.commits = 0) (haborts : s.aborts = 0) :
    ∃ t, Leads ⟨s, messages ++ later⟩ t ∧ Transferred s.fed (inZone s.domain front) later t := by
  induction messages generalizing s front with
  | nil => cases front <;> cases hflat
  | cons res messages ih =>
    obtain ⟨hres, hrest⟩ := forall_mem_cons.mp hne
    obtain ⟨s', hreceived, hmessage⟩ := @message_leads s (messages ++ later) hphase res
    rw [flatten_cons] at hflat
    have hdomain := hreceived.domain
    by_cases hlast : messages = []
    · -- the message with the closing SOA
      subst hlast
      rw [flatten_nil, append_nil] at hflat
      have hover : s.d_soacount + soaCount res = 2 := by
        rw [hflat, soaCount_append, ← Nat.add_assoc, hsoa]
        simp [soaCount, hclosing]
      have hchunk : chunk (s.d_soacount + soaCount res) res = front := by
        rw [chunk, if_pos (by omega), hflat, dropLast_concat]
      rw [hchunk] at hmessage
      obtain ⟨hall, hstop⟩ := @feed_leads s' ([] ++ later) hreceived.first front
      rw [hdomain] at hall hstop
      cases hstorable : (inZone s.domain front).all storable with
      | true =>
        have hcommit := @committed_leads (fedWith s' (inZone s.domain front)) ([] ++ later)
          (by show 1 < s'.d_soacount; rw [hreceived.soacount]; omega)
        refine ⟨_, hmessage.trans ((hall hstorable).trans hcommit), rfl, ?_, ?_, ?_, fun _ => rfl⟩
        · rw [takeWhile_eq_self_iff.mpr (all_eq_true.mp hstorable), ← hreceived.fed]
          rfl
        · rw [if_pos hstorable]
          show s'.commits + 1 = 1
          rw [hreceived.commits, hcommits]
        · rw [if_pos hstorable]
          exact hreceived.aborts.trans haborts
      | false =>
        refine ⟨_, hmessage.trans ((hstop hstorable).trans (aborted_leads _)), rfl, ?_, ?_, ?_, fun h => ?_⟩
        · rw [← hreceived.fed]
          rfl
        · rw [hstorable]
          exact hreceived.commits.trans hcommits
        · rw [hstorable]
          exact congrArg (· + 1) (hreceived.aborts.trans haborts)
        · rw [hstorable] at h
          cases h
    · -- there is more to come
      have hmore : messages.flatten ≠ [] := by
        obtain ⟨res', messages', rfl⟩ := exists_cons_of_ne_nil hlast
        exact append_ne_nil_of_left_ne_nil (hrest res' mem_cons_self) _
      obtain ⟨front', c, hfront'⟩ : ∃ front' c, messages.flatten = front' ++ [c] :=
        ⟨_, _, (dropLast_concat_getLast hmore).symm⟩
      obtain ⟨rfl, rfl⟩ : res ++ front' = front ∧ c = closing := by
        rw [hfront', ← append_assoc] at hflat
        exact append_inj' hflat rfl |>.imp id fun h => (List.cons.inj h).1
      rw [soaCount_append, ← Nat.add_assoc] at hsoa
      have hchunk : chunk (s.d_soacount + soaCount res) res = res := if_neg (by omega)
      rw [hchunk] at hmessage
      obtain ⟨hall, hstop⟩ := @feed_leads s' (messages ++ later) hreceived.first res
      rw [hdomain] at hall hstop
      have hzone : inZone s.domain (res ++ front') = inZone s.domain res ++ inZone s.domain front' := by
        exact filter_append _ _
      cases hstorable : (inZone s.domain res).all storable with
      | true =>
        have hnext : (fedWith s' (inZone s.domain res)).feed [] =
            { fedWith s' (inZone s.domain res) with phase := .axfrChunk } := by
          rw [SuckRun.feed, if_neg]
          show ¬ 1 < s'.d_soacount
          rw [hreceived.soacount]
          omega
        have hfed := hall hstorable
        rw [hnext] at hfed
        obtain ⟨t, hleads, ht⟩ := @ih { fedWith s' (inZone s.domain res) with phase := .axfrChunk } front' hrest
          hfront' rfl (by show s'.d_soacount + _ = 1; rw [hreceived.soacount]; exact hsoa)
          (hreceived.commits.trans hcommits) (hreceived.aborts.trans haborts)
        have hsame : (inZone s.domain (res ++ front')).all storable = (inZone s.domain front').all storable := by
          rw [hzone, all_append, hstorable, Bool.true_and]
        have hdomain' : { fedWith s' (inZone s.domain res) with phase := .axfrChunk }.domain = s.domain := hdomain
        rw [hdomain'] at ht
        refine ⟨t, hmessage.trans (hfed.trans hleads), ht.ended, ?_, ?_, ?_, ?_⟩
        · have hbefore : { fedWith s' (inZone s.domain res) with phase := .axfrChunk }.fed =
              s.fed ++ (inZone s.domain res).map fun i => (i, .returns true) := by
            rw [← hreceived.fed]
            rfl
          rw [ht.fed, hbefore, hzone, takeWhile_append_of_pos (all_eq_true.mp hstorable), map_append,
            append_assoc]
        · rw [hsame]
          exact ht.commits
        · rw [hsame]
          exact ht.aborts
        · rw [hsame]
          exact ht.left
      | false =>
        have hnot : (inZone s.domain (res ++ front')).all storable = false := by
          rw [hzone, all_append, hstorable, Bool.false_and]
        have hwhile : (inZone s.domain (res ++ front')).takeWhile storable =
            (inZone s.domain res).takeWhile storable := by
          rw [hzone, takeWhile_append, if_neg]
          intro hlen
          have hself := ( takeWhile_prefix storable (l := inZone s.domain res)).eq_of_length hlen
          rw [takeWhile_eq_self_iff, ← all_eq_true, hstorable] at hself
          cases hself
        refine ⟨_, hmessage.trans ((hstop hstorable).trans (aborted_leads _)), rfl, ?_, ?_, ?_, fun h => ?_⟩
        · rw [hwhile, ← hreceived.fed]
          rfl
        · rw [hnot]
          exact hreceived.commits.trans hcommits
        · rw [hnot]
          exact congrArg (· + 1) (hreceived.aborts.trans haborts)
        · rw [hnot] at h
          cases h

end Transfer

/-- **However a transfer is cut.** The records between the SOA record of the zone and the closing
one, none of which is an SOA record, come in messages of one record or more. Those that belong to
the zone are fed, each once and in their order, and the transaction is committed, without anything
being read behind the closing SOA; a type that no database can store ends the transfer instead, and
the transaction is aborted. -/
theorem stream_fed {domain : Octets} {soa closing : TextRR} {middle : List TextRR}
    {messages later : List (List TextRR)} (hsoa : isZoneSOA domain soa = true)
    (hclosing : isZoneSOA domain closing = true) (hmiddle : ∀ i ∈ middle, i.qtype ≠ QType.SOA)
    (hne : ∀ res ∈ messages, res ≠ []) (hflat : messages.flatten = soa :: middle ++ [closing]) :
    ∃ t, (Transfer.start domain (messages ++ later)).Leads t ∧
      Transferred [] (inZone domain (soa :: middle)) later t := by
  have htype : ∀ {i : TextRR}, isZoneSOA domain i = true → i.qtype = QType.SOA := fun {i} hi =>
    of_decide_eq_true (and_eq_true_iff.mp hi).1
  have hcount : soaCount (soa :: middle) = 1 := by
    have hnone : middle.countP (fun i => i.qtype = QType.SOA) = 0 :=
      countP_eq_zero.mpr fun i hi => by simpa using hmiddle i hi
    rw [soaCount, countP_cons, hnone]
    simp [htype hsoa]
  obtain ⟨t, hleads, ht⟩ := @Transfer.messages_lead { SuckRun.start domain with phase := .axfrChunk } (soa :: middle)
    closing (htype hclosing) messages later hne hflat rfl (by rw [hcount]; rfl) rfl rfl
  refine ⟨t, Transfer.Leads.trans ⟨2, ?_⟩ hleads, ht⟩
  rfl

/-- An address outside `example.com`, and an SOA record below it. -/
def foreignHost : TextRR := { exampleHost with qname := ascii "www.example.net" }

def childSOA : TextRR := { exampleSOA with qname := ascii "sub.example.com" }

/-- Three messages, the second with the closing SOA record only. -/
theorem cut_before_closing :
    ∃ t, (Transfer.start (ascii "example.com") [[exampleSOA, exampleHost], [exampleSOA], [exampleHost]]).Leads t ∧
      Transferred [] (inZone (ascii "example.com") [exampleSOA, exampleHost]) [[exampleHost]] t :=
  @stream_fed (ascii "example.com") exampleSOA exampleSOA [exampleHost] [[exampleSOA, exampleHost], [exampleSOA]]
    [[exampleHost]] (by decide) (by decide) (by decide) (by decide) (by decide)

/-- A record out of the zone is not fed. Where an SOA record has another owner the transfer ends
there, and a record is lost. -/
theorem not_all_fed :
    let foreign := Transfer.advance^[9] (Transfer.start (ascii "example.com") [[exampleSOA, foreignHost, exampleSOA]])
    let child := Transfer.advance^[9]
      (Transfer.start (ascii "example.com") [[exampleSOA, childSOA, exampleHost], [exampleSOA]])
    foreign.run.phase = .ended none ∧ foreign.run.fed = [(exampleSOA, .returns true)] ∧
      child.run.phase = .ended none ∧ child.run.commits = 1 ∧
      child.run.fed = [(exampleSOA, .returns true), (childSOA, .returns true)] := by
  decide

end SuckRun

end PowerDNS
