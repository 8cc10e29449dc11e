import PowerDNS.Recursor.AnswerChains
import PowerDNS.Recursor.SectionOrder

/-!
# What a lame reply leaves behind

`doResolveAt` goes through the records of a reply, puts some of them into `ret` and into the
negative cache as it comes to them, and decides only then whether the server was lame. A reply with
a SOA and with NS records that lead nowhere new has left both by that time.
`lame_leaves_no_trace_iff` says which lame replies leave something.
-/

namespace PowerDNS

open GuardedRun LoggedRun SyncRes List

section Traces

variable {W : Type} {env : Resolver W} {cfg : ResolverConfig} {qname auth tns : Octets} {qtype : UInt16}
  {depth : Nat} {lwr : LWResult} {ret : List TextRR} {i : TextRR} {st : ReplyState}

/-- **No trace**: if the reply makes `doResolveAt` go on to the next address or server, `ret` is what
it was, and nothing goes into the negative cache. -/
def LeavesNoTrace (env : Resolver W) (cfg : ResolverConfig) (auth qname : Octets) (qtype : UInt16)
    (depth : Nat) (tns : Octets) (lwr : LWResult) (ret : List TextRR) (w : W) : Prop :=
  let reply := processReply env cfg auth qname qtype depth tns lwr ret
  (reply.value w).1 = .lame ∨ (reply.value w).1 = .nextServer →
    (reply.value w).2 = ret ∧ ∀ ne, Event.negcache auth ne ∉ reply.log w

/-- An answer from a delegation-only zone ends the resolution before the records are looked at. -/
def Stops (cfg : ResolverConfig) (auth : Octets) (lwr : LWResult) (i : TextRR) : Prop :=
  ¬ (i.qtype = QType.OPT ∨ i.qtype = QType.ANY ∨ dottedEndsOn i.qname auth = false) ∧
    lwr.d_aabit ∧ lwr.d_rcode = RCode.NoError ∧ i.d_place = .ANSWER ∧ cfg.delegationOnly auth

/-- A reply that neither settles the question nor leads closer to an answer. -/
structure Lame (cfg : ResolverConfig) (qname : Octets) (qtype : UInt16) (auth : Octets) (lwr : LWResult) :
    Prop where
  goes_on : ∀ i ∈ lwr.d_result, ¬ Stops cfg auth lwr i
  no_answer : ∀ i ∈ lwr.d_result, ¬ Answers qname qtype lwr i
  rcode : lwr.d_rcode ≠ RCode.NXDomain
  no_target : newtargetOf qname qtype lwr.d_result [] = []
  refers : lwr.d_rcode = 0 → ∃ i ∈ lwr.d_result, Refers qname i
  not_closer : ∀ i ∈ lwr.d_result, Refers qname i → moreSpecificThan i.qname auth = false

/-- A record that is kept as soon as it is seen: a CNAME, or the SOA of a reply without error. -/
def Kept (qname : Octets) (qtype : UInt16) (lwr : LWResult) (i : TextRR) : Prop :=
  Redirects qname qtype i ∨ lwr.d_rcode = RCode.NoError ∧ Denies qname i

/-! ### One record -/

/-- Only NS records refer. -/
theorem not_refers (h : i.d_place = .ANSWER ∨ i.qtype = QType.SOA) : ¬ Refers qname i := by
  rintro ⟨hplace, -, htype⟩
  rcases h with h | h
  · rw [h] at hplace
    cases hplace
  · rw [h] at htype
    exact absurd htype (by decide)

theorem setInsert_ne_nil {α : Type} (lt : α → α → Bool) (x : α) (ys : List α) : setInsert lt x ys ≠ [] := by
  cases ys with
  | nil => exact cons_ne_nil x []
  | cons y ys =>
    unfold setInsert
    split
    · exact cons_ne_nil _ _
    · split
      · exact cons_ne_nil _ _
      · exact cons_ne_nil _ _

theorem classify_referral (st : ReplyState) (i : TextRR) :
    let st' := classify cfg qname qtype auth lwr st i
    (st'.realreferral = true ↔ st.realreferral = true ∨ Refers qname i ∧ moreSpecificThan i.qname auth = true) ∧
      (st'.nsset = [] ↔ st.nsset = [] ∧ ¬ Refers qname i) := by
  unfold classify
  split
  · next h => simp [not_refers (.inr h.2.2.1)]
  split
  · next h => simp [not_refers (.inl h.1)]
  split
  · next h => simp [not_refers (.inl h.1)]
  split
  · next h =>
    have hrefers : Refers qname i := h
    split
    · next hcloser => simp [hrefers, hcloser, setInsert_ne_nil]
    · next hlevel => simp [hrefers, hlevel, setInsert_ne_nil]
  next hrefers =>
  have hrefers : ¬ Refers qname i := hrefers
  split
  · split <;> simp [hrefers]
  · simp [hrefers]

/-- While there is no answer, a record that is not kept leaves nothing, and one that is kept does. -/
theorem classify_kept (hrcode : lwr.d_rcode ≠ RCode.NXDomain) (hanswer : ¬ Answers qname qtype lwr i) :
    let st' := classify cfg qname qtype auth lwr st i
    (¬ Kept qname qtype lwr i → st'.ret = st.ret ∧ st'.neg = st.neg) ∧
      (st.newtarget = [] → st.done = false → Kept qname qtype lwr i → st'.ret ≠ st.ret) := by
  unfold classify
  rw [if_neg fun h => hrcode h.2.2.2]
  split
  · next hredirects => exact ⟨fun h => absurd (.inl hredirects) h, fun _ _ _ => by simp⟩
  next hredirects =>
  rw [if_neg fun h => hanswer ⟨hredirects, h⟩]
  split
  · next hrefers =>
    have hkept : ¬ Kept qname qtype lwr i := fun h => (h.resolve_left hredirects).2.elim fun _ h' =>
      not_refers (.inr h'.2) hrefers
    split
    · exact ⟨fun _ => ⟨rfl, rfl⟩, fun _ _ h => absurd h hkept⟩
    · exact ⟨fun _ => ⟨rfl, rfl⟩, fun _ _ h => absurd h hkept⟩
  split
  · next hdenies =>
    refine ⟨fun h => absurd (.inr ⟨hdenies.2.2.2.2, hdenies.2.1, hdenies.2.2.1, hdenies.2.2.2.1⟩) h, ?_⟩
    intro htarget _ _
    rw [if_neg (not_not.mpr htarget)]
    simp
  · next hnone =>
    refine ⟨fun _ => ⟨rfl, rfl⟩, fun _ hdone h => ?_⟩
    obtain ⟨hnoerror, hplace, hends, htype⟩ := h.resolve_left hredirects
    exact absurd ⟨by simp [hdone], hplace, hends, htype, hnoerror⟩ hnone

/-! ### All records -/

theorem run_classify_referral (result : List TextRR) (st : ReplyState) :
    let st' := run (classify cfg qname qtype auth lwr) st result
    (st'.realreferral = true ↔ st.realreferral = true ∨
        ∃ i ∈ result, Refers qname i ∧ moreSpecificThan i.qname auth = true) ∧
      (st'.nsset = [] ↔ st.nsset = [] ∧ ∀ i ∈ result, ¬ Refers qname i) := by
  induction result generalizing st with
  | nil => simp
  | cons i result ih =>
    obtain ⟨hreal, hnsset⟩ := @classify_referral cfg qname auth qtype lwr st i
    obtain ⟨hreal', hnsset'⟩ := ih (classify cfg qname qtype auth lwr st i)
    rw [run_cons]
    constructor
    · rw [hreal', hreal, exists_mem_cons_iff, or_assoc]
    · rw [hnsset', hnsset, forall_mem_cons, and_assoc]

/-- **A reply without an answer leaves nothing** exactly if none of its records is kept. -/
theorem run_classify_kept (hrcode : lwr.d_rcode ≠ RCode.NXDomain) {result : List TextRR}
    (hanswer : ∀ i ∈ result, ¬ Answers qname qtype lwr i) (hst : st.newtarget = []) (hdone : st.done = false) :
    let st' := run (classify cfg qname qtype auth lwr) st result
    st'.ret = st.ret ∧ st'.neg = st.neg ↔ ∀ i ∈ result, ¬ Kept qname qtype lwr i := by
  induction result generalizing st with
  | nil => simp
  | cons i result ih =>
    obtain ⟨hfirst, hlater⟩ := forall_mem_cons.mp hanswer
    obtain ⟨hnothing, hsomething⟩ := @classify_kept cfg qname auth qtype lwr i st hrcode hfirst
    rw [run_cons, forall_mem_cons]
    by_cases hkept : Kept qname qtype lwr i
    · refine iff_of_false (fun h => ?_) fun h => h.1 hkept
      -- what was put into `ret` stays there
      have hstays : (classify cfg qname qtype auth lwr st i).ret <+: st.ret := by
        rw [← h.1]
        exact run_invariant (I := fun st' : ReplyState => (classify cfg qname qtype auth lwr st i).ret <+: st'.ret)
          (fun st' j hst' _ => hst'.trans (classify_extends st' j)) prefix_rfl (guarded_true _ _)
      exact hsomething hst hdone hkept
        (hstays.eq_of_length (le_antisymm hstays.length_le (classify_extends st i).length_le))
    · obtain ⟨hret, hneg⟩ := hnothing hkept
      obtain ⟨-, htarget, hdone', -⟩ := @classify_cases cfg qname qtype auth lwr st i
      have hih := @ih (classify cfg qname qtype auth lwr st i) hlater
        (by rw [htarget, if_neg fun h => hkept (.inl h), hst]) (by rw [hdone', hdone, decide_eq_false hfirst]; rfl)
      dsimp only at hih ⊢
      rw [hret, hneg] at hih
      rw [hih, and_iff_right hkept]

/-! ### The reply as it was received -/

theorem reap_error_iff {is : List TextRR} {tcache : TCache} :
    (∃ e, reap cfg auth lwr is tcache = .error e) ↔ ∃ i ∈ is, Stops cfg auth lwr i := by
  have hlater : ∀ (is : List TextRR) (i : TextRR) (tcache : TCache),
      (∃ e, (do let r ← reap cfg auth lwr is tcache; return (i :: r.1, r.2) : Except Nat _) = .error e) ↔
        ∃ e, reap cfg auth lwr is tcache = .error e := by
    intro is i tcache
    cases reap cfg auth lwr is tcache with
    | error e => exact Iff.rfl
    | ok out => exact iff_of_false (by rintro ⟨e, h⟩; cases h) (by rintro ⟨e, h⟩; cases h)
  induction is generalizing tcache with
  | nil => exact iff_of_false (by rintro ⟨e, h⟩; cases h) (by simp)
  | cons i is ih =>
    have hcond : (i.qtype = QType.OPT || i.qtype = QType.ANY || !dottedEndsOn i.qname auth) = true ↔
        i.qtype = QType.OPT ∨ i.qtype = QType.ANY ∨ dottedEndsOn i.qname auth = false := by
      simp [or_assoc]
    rw [exists_mem_cons_iff, reap]
    by_cases hskip : i.qtype = QType.OPT ∨ i.qtype = QType.ANY ∨ dottedEndsOn i.qname auth = false
    · rw [if_pos (hcond.mpr hskip), or_iff_right fun h : Stops cfg auth lwr i => h.1 hskip]
      exact (hlater is i tcache).trans ih
    · rw [if_neg (mt hcond.mp hskip)]
      split
      · next h =>
        simp only [Bool.and_eq_true, beq_iff_eq] at h
        exact iff_of_true ⟨_, rfl⟩ (.inl ⟨hskip, h.1.1.1, h.1.1.2, h.1.2, h.2⟩)
      · next h =>
        simp only [Bool.and_eq_true, beq_iff_eq, not_and] at h
        rw [or_iff_right fun hi : Stops cfg auth lwr i => h ⟨⟨hi.2.1, hi.2.2.1⟩, hi.2.2.2.1⟩ hi.2.2.2.2]
        exact (hlater is _ _).trans ih

/-- Capped TTLs are not looked at. -/
theorem forall_same_iff {P : TextRR → Prop} (hP : ∀ i t, P { i with ttl := t } ↔ P i) {is js : List TextRR}
    (h : List.Forall₂ SameButTTL is js) : (∀ j ∈ js, P j) ↔ ∀ i ∈ is, P i := by
  induction h with
  | nil => simp
  | cons hsame _ ih =>
    obtain ⟨t, rfl⟩ := hsame
    rw [forall_mem_cons, forall_mem_cons, hP, ih]

theorem newtargetOf_same {is js : List TextRR} (h : List.Forall₂ SameButTTL is js) :
    newtargetOf qname qtype js [] = newtargetOf qname qtype is [] := by
  have hcontents : (js.filter fun i => Redirects qname qtype i).map (fun i => i.content) =
      (is.filter fun i => Redirects qname qtype i).map fun i => i.content := by
    induction h with
    | nil => rfl
    | @cons i j is js hsame _ ih =>
      obtain ⟨t, rfl⟩ := hsame
      have hi : Redirects qname qtype { i with ttl := t } ↔ Redirects qname qtype i := Iff.rfl
      by_cases h : Redirects qname qtype i
      · rw [filter_cons_of_pos (by simpa [hi] using h), filter_cons_of_pos (by simpa using h)]
        simp only [map_cons, ih]
      · rw [filter_cons_of_neg (by simpa [hi] using h), filter_cons_of_neg (by simpa using h), ih]
  unfold newtargetOf
  rw [← getLast?_map, hcontents, getLast?_map]

theorem verdict_goes_on : (verdict qname depth tns lwr st = .lame ∨ verdict qname depth tns lwr st = .nextServer) ↔
    st.done = false ∧ lwr.d_rcode ≠ RCode.NXDomain ∧ st.newtarget = [] ∧ (lwr.d_rcode = 0 → st.nsset ≠ []) ∧
      st.realreferral = false := by
  unfold verdict
  split
  · next h => simp [h]
  next hdone =>
  split
  · next h => simp [h]
  next hrcode =>
  split
  · next h =>
    refine iff_of_false ?_ fun hall => h hall.2.2.1
    split
    · simp
    · split <;> simp
  next htarget =>
  split
  · next h => exact iff_of_false (by simp) fun hall => hall.2.2.2.1 h.2 h.1
  next hns =>
  have hns : lwr.d_rcode = 0 → st.nsset ≠ [] := fun hzero hnil => hns ⟨hnil, hzero⟩
  split
  · next h => exact iff_of_false (by simp) fun hall => absurd (hall.2.2.2.2.symm.trans h) Bool.false_ne_true
  next hreal =>
  refine iff_of_true ?_ ⟨by simpa using hdone, hrcode, not_not.mp htarget, hns, by simpa using hreal⟩
  split
  · exact .inl rfl
  · exact .inr rfl

theorem log_forM_emit {α : Type} (f : α → Event) (l : List α) (w : W) :
    (l.forM fun x => emit env (f x)).log w = l.map f := by
  induction l generalizing w with
  | nil => rfl
  | cons x l ih =>
    change (emit env (f x) >>= fun _ => l.forM fun x => emit env (f x)).log w = _
    rw [LogM.log_bind, ih]
    rfl

theorem reply_traces {result : List TextRR} {tcache : TCache}
    (hreap : reap cfg auth lwr lwr.d_result [] = .ok (result, tcache)) (w : W) :
    let st := afterReply cfg qname qtype auth { lwr with d_result := result } ret
    (processReply env cfg auth qname qtype depth tns lwr ret).value w =
        (verdict qname depth tns { lwr with d_result := result } st, st.ret) ∧
      ∀ ne, Event.negcache auth ne ∈ (processReply env cfg auth qname qtype depth tns lwr ret).log w ↔
        ne ∈ st.neg := by
  intro st
  unfold processReply
  rw [hreap]
  refine ⟨rfl, fun ne => ?_⟩
  rw [LogM.log_bind, LogM.log_bind, LogM.log_bind, log_forM_emit, log_forM_emit]
  simp [emit, LogM.log_bind, st, afterReply]

/-- Which replies make `doResolveAt` go on. -/
theorem lame_iff {result : List TextRR} (hsame : List.Forall₂ SameButTTL lwr.d_result result)
    (hgoes : ∀ i ∈ lwr.d_result, ¬ Stops cfg auth lwr i) :
    (let lwr' := { lwr with d_result := result }
      let v := verdict qname depth tns lwr' (afterReply cfg qname qtype auth lwr' ret)
      v = .lame ∨ v = .nextServer) ↔ Lame cfg qname qtype auth lwr := by
  rw [verdict_goes_on]
  obtain ⟨htarget, hdone, -⟩ :=
    @run_classify_status cfg qname qtype auth { lwr with d_result := result } result { ret := ret }
  obtain ⟨hreal, hnsset⟩ :=
    @run_classify_referral cfg qname auth qtype { lwr with d_result := result } result { ret := ret }
  unfold afterReply
  rw [htarget, newtargetOf_same hsame, hdone, Bool.false_or, decide_eq_false_iff_not, ← Bool.not_eq_true, hreal]
  have hanswers := forall_same_iff (P := fun i => ¬ Answers qname qtype lwr i) (fun i t => Iff.rfl) hsame
  have hrefers := forall_same_iff (P := fun i => ¬ Refers qname i) (fun i t => Iff.rfl) hsame
  have hcloser := forall_same_iff (P := fun i => ¬ (Refers qname i ∧ moreSpecificThan i.qname auth = true))
    (fun i t => Iff.rfl) hsame
  have hnone : ({ ret := ret } : ReplyState).nsset = [] := rfl
  constructor
  · rintro ⟨hdone, hrcode, htarget, hns, hreal⟩
    refine ⟨hgoes, hanswers.mp fun i hi h => hdone ⟨i, hi, h⟩, hrcode, htarget, fun hzero => ?_, ?_⟩
    · by_contra hno
      exact hns hzero (hnsset.mpr ⟨hnone, hrefers.mpr fun i hi h => hno ⟨i, hi, h⟩⟩)
    · intro i hi h
      have hnot := hcloser.mp (fun j hj h' => hreal (.inr ⟨j, hj, h'⟩)) i hi
      exact Bool.eq_false_iff.mpr fun hmore => hnot ⟨h, hmore⟩
  · intro h
    refine ⟨fun ⟨i, hi, ha⟩ => hanswers.mpr h.no_answer i hi ha, h.rcode, h.no_target, fun hzero hnil => ?_, ?_⟩
    · obtain ⟨i, hi, hr⟩ := h.refers hzero
      exact hrefers.mp (hnsset.mp hnil).2 i hi hr
    · rintro (hf | ⟨j, hj, hr⟩)
      · exact Bool.false_ne_true hf
      · have hall : ∀ i ∈ lwr.d_result, ¬ (Refers qname i ∧ moreSpecificThan i.qname auth = true) := fun i hi hi' =>
          Bool.false_ne_true ((h.not_closer i hi hi'.1).symm.trans hi'.2)
        exact hcloser.mpr hall j hj hr

/-- **Lame replies leave no trace** unless a CNAME or a SOA of theirs is kept. -/
theorem lame_leaves_no_trace_iff (w : W) : LeavesNoTrace env cfg auth qname qtype depth tns lwr ret w ↔
    ¬ (Lame cfg qname qtype auth lwr ∧ ∃ i ∈ lwr.d_result, Kept qname qtype lwr i) := by
  unfold LeavesNoTrace
  cases hreap : reap cfg auth lwr lwr.d_result [] with
  | error e =>
    obtain ⟨i, hi, hstops⟩ := reap_error_iff.mp ⟨e, hreap⟩
    refine iff_of_true ?_ fun h => h.1.goes_on i hi hstops
    unfold processReply
    rw [hreap]
    intro reply h
    rcases h with h | h
    · cases h
    · cases h
  | ok out =>
    obtain ⟨result, tcache⟩ := out
    obtain ⟨hvalue, hlog⟩ := @reply_traces W env cfg qname auth tns qtype depth lwr ret result tcache hreap w
    have hgoes : ∀ i ∈ lwr.d_result, ¬ Stops cfg auth lwr i := by
      intro i hi hstops
      obtain ⟨e, he⟩ := reap_error_iff.mpr ⟨i, hi, hstops⟩
      rw [hreap] at he
      cases he
    have hsame : List.Forall₂ SameButTTL lwr.d_result result := reap_result hreap
    dsimp only
    rw [hvalue, not_and]
    refine imp_congr_ctx (lame_iff hsame hgoes) fun hlame => ?_
    have hanswers := forall_same_iff (P := fun i => ¬ Answers qname qtype lwr i) (fun i t => Iff.rfl) hsame
    have hkept := @run_classify_kept cfg qname auth qtype { lwr with d_result := result } { ret := ret }
      hlame.rcode result (hanswers.mpr hlame.no_answer) rfl rfl
    have hsame' := forall_same_iff (P := fun i => ¬ Kept qname qtype lwr i) (fun i t => Iff.rfl) hsame
    calc (afterReply cfg qname qtype auth { lwr with d_result := result } ret).ret = ret ∧
          (∀ ne, Event.negcache auth ne ∉ (processReply env cfg auth qname qtype depth tns lwr ret).log w)
        ↔ (afterReply cfg qname qtype auth { lwr with d_result := result } ret).ret = ret ∧
          (afterReply cfg qname qtype auth { lwr with d_result := result } ret).neg = [] :=
            and_congr_right fun _ => by simp only [hlog, eq_nil_iff_forall_not_mem]
      _ ↔ ∀ i ∈ result, ¬ Kept qname qtype { lwr with d_result := result } i := hkept
      _ ↔ ∀ i ∈ lwr.d_result, ¬ Kept qname qtype lwr i := hsame'
      _ ↔ ¬ ∃ i ∈ lwr.d_result, Kept qname qtype lwr i := by simp

/-- A SOA next to the NS records of the zone itself: the server is lame, the SOA stays. -/
theorem lame_soa_kept : ¬ LeavesNoTrace (staticServer (reply 0 [])) defaultConfig (ascii "example.com.")
    (ascii "www.example.com.") QType.A 0 (ascii "ns.example.com.")
    (reply 0 [replyRR "example.com." QType.SOA "ns.example.com. root.example.com. 1 2 3 4 5" .AUTHORITY,
      replyRR "example.com." QType.NS "ns.example.com." .AUTHORITY]) [] () := by
  intro h
  have hret := (h (.inl rfl)).1
  exact absurd hret (by decide)

end Traces

end PowerDNS
