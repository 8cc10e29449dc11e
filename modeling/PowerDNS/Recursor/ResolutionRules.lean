import PowerDNS.Recursor.Resolution
import PowerDNS.Recursor.ResolverRules

/-!
# What a resolution carries along

The statements about `doResolve` are about the records in `ret`, the steps they were taken from,
and whether a call was cut off. As for `doResolveAt` they come in pairs: `I` as long as the answer
is being looked for, `F` when it has been found. `UsesCaches` and `AsksServers` say what has to be
checked of a pair for the two parts of `doResolve`, and `doResolve_step` puts them together; the
induction over the depth of the calls is left to those who know why it ends.

What only moves the world, such as the search for name servers, is `Quiet` and needs no check.
-/

namespace PowerDNS

open GuardedRun LoggedRun SyncM Option List

namespace SyncRes

variable {W : Type}

/-- What a statement about a resolution may look at. -/
abbrev Pred := List TextRR → List Step → Bool → Prop

/-- A statement about `ret` and the state. -/
def Pred.on (I : Pred) (ret : List TextRR) (s : SyncState W) : Prop := I ret s.steps s.ended

/-! ### Parts that only move the world -/

/-- A part that takes no step of its own. -/
def Quiet {α : Type} (m : SyncM W α) : Prop :=
  ∀ s, (m.final s).steps = s.steps ∧ (m.final s).ended = s.ended

namespace Quiet

variable {α β : Type}

protected theorem pure {a : α} : Quiet (pure a : SyncM W α) := fun _ => ⟨rfl, rfl⟩

variable {m : SyncM W α}

protected theorem bind {k : α → SyncM W β} (hm : Quiet m)
    (hk : ∀ a, Quiet (k a)) : Quiet (m >>= k) := by
  intro s
  obtain ⟨hsteps, hended⟩ := hk (m.value s) (m.final s)
  exact ⟨hsteps.trans (hm s).1, hended.trans (hm s).2⟩

theorem onWorld {f : W → W × α} : Quiet (SyncM.onWorld f) := fun _ => ⟨rfl, rfl⟩

theorem look {f : W → α} : Quiet (SyncM.look f) := fun _ => ⟨rfl, rfl⟩

theorem call {f : SyncState W → SyncState W × α}
    (h : ∀ s, (f s).1.steps = s.steps ∧ (f s).1.ended = s.ended) :
    Quiet (LogM.call f : SyncM W α) := h

/-- What follows a part is quiet. -/
theorem after {k : α → SyncM W β} (hk : ∀ a, Quiet (k a)) (s : SyncState W) :
    ((m >>= k).final s).steps = (m.final s).steps ∧
      ((m >>= k).final s).ended = (m.final s).ended :=
  hk (m.value s) (m.final s)

theorem triple {I : Pred} {ret : List TextRR} (h : Quiet m) :
    Triple (I.on ret) (fun _ => True) m fun _ => I.on ret := by
  intro s hI
  refine ⟨fun _ _ => trivial, ?_⟩
  obtain ⟨hsteps, hended⟩ := h s
  rwa [Pred.on, hsteps, hended]

end Quiet

variable {R : SyncRes W}

theorem usableNS_quiet (subdomain : Octets) (ns bestns : List TextRR) (flawedNSSet : Bool) :
    Quiet (R.usableNS subdomain ns bestns flawedNSSet) := by
  induction ns generalizing bestns flawedNSSet with
  | nil => exact .pure
  | cons k ns ih =>
    refine .bind .look fun now => ?_
    split
    · split
      · exact ih _ _
      · refine .bind .onWorld fun r => ?_
        dsimp only
        split
        · exact ih _ _
        · exact ih _ _
    · exact ih _ _

theorem getBestNSFromCache_quiet (qname : Octets) (names : List Octets) (flawedNSSet : Bool) :
    Quiet (R.getBestNSFromCache qname names flawedNSSet) := by
  induction names generalizing flawedNSSet with
  | nil => exact .pure
  | cons subdomain rest ih =>
    refine .bind .onWorld fun r => ?_
    dsimp only
    split
    · refine .bind (usableNS_quiet _ _ _ _) fun r => ?_
      split
      · exact ih _
      · refine .bind (.call fun _ => ⟨rfl, rfl⟩) fun loop => ?_
        split
        · exact ih _
        · exact .bind (.call fun _ => ⟨rfl, rfl⟩) fun _ => .pure
    · exact ih _

theorem getBestNSNamesFromCache_quiet (qname : Octets) (flawedNSSet : Bool) :
    Quiet (R.getBestNSNamesFromCache qname flawedNSSet) := by
  unfold getBestNSNamesFromCache
  split
  · exact .pure
  · exact .bind (getBestNSFromCache_quiet _ _ _) fun _ => .pure

theorem findServers_quiet (tries : Nat) (subdomain : Octets) (flawedNSSet : Bool) :
    Quiet (R.findServers tries subdomain flawedNSSet) := by
  induction tries generalizing subdomain flawedNSSet with
  | zero => exact .pure
  | succ tries ih =>
    refine .bind (getBestNSNamesFromCache_quiet _ _) fun ⟨subdomain, nsset, flawedNSSet⟩ => ?_
    dsimp only
    split
    · refine .bind .onWorld fun r => ?_
      split
      · exact .bind .onWorld fun _ => ih _ _
      · exact ih _ _
    · exact .pure

theorem negativelyCached_quiet (qtype : UInt16) (range : List NegCacheEntry) :
    Quiet (R.negativelyCached qtype range) := by
  induction range with
  | nil => exact .pure
  | cons ni range ih =>
    rw [negativelyCached]
    split
    · refine .bind .look fun now => ?_
      split
      · exact .bind .onWorld fun _ => .pure
      · exact .bind .onWorld fun _ => ih
    · exact ih

/-! ### Asking servers -/

/-- The conditions for the part of `doResolve` that asks servers. -/
structure AsksServers (R : SyncRes W) (doResolve : ResolveFn W) (qname : Octets) (qtype : UInt16)
    (depth : Nat) (I F : Pred) : Prop where
  stop {ret steps ended} : I ret steps ended → F ret steps ended
  /-- The addresses of a server are looked up. -/
  getAs {ret s} (tns) : I.on ret s →
    I ret s.steps ((doResolve tns (if R.s_doIPv6 then QType.ADDR else QType.A) []
      (depth + 1 + 1)).final s).ended
  /-- A reply that settles the question. -/
  settled {ret steps ended auth tns lwr result tcache res} {cfg : ResolverConfig} :
    InSectionOrder lwr.d_result → reap cfg auth lwr lwr.d_result [] = .ok (result, tcache) →
      I ret steps ended →
      let lwr := { lwr with d_result := result }
      verdict qname depth tns lwr (afterReply cfg qname qtype auth lwr ret) = .answered res →
      F (afterReply cfg qname qtype auth lwr ret).ret (steps ++ [.reply qname qtype lwr]) ended
  /-- A reply that does not. -/
  goesOn {ret steps ended auth tns lwr result tcache} {cfg : ResolverConfig} :
    InSectionOrder lwr.d_result → reap cfg auth lwr lwr.d_result [] = .ok (result, tcache) →
      I ret steps ended →
      let lwr := { lwr with d_result := result }
      (∀ res, verdict qname depth tns lwr (afterReply cfg qname qtype auth lwr ret) ≠
        .answered res) →
      I (afterReply cfg qname qtype auth lwr ret).ret (steps ++ [.reply qname qtype lwr]) ended
  /-- A CNAME is followed. -/
  follow {ret} (newtarget) : depth ≤ 10 →
    Triple (I.on ret) (fun _ => True) (doResolve newtarget qtype ret (depth + 1))
      fun r => F.on r.2

variable {doResolve : ResolveFn W} {qname : Octets} {qtype : UInt16}

theorem observe_steps {e : Event}
    {s : SyncState W} (he : ∀ auth lwr, e ≠ .reply auth lwr) :
    ((R.resolver doResolve qname qtype).observe e s).steps = s.steps ∧
      ((R.resolver doResolve qname qtype).observe e s).ended = s.ended := by
  cases e with
  | reply auth lwr => exact absurd rfl (he auth lwr)
  | _ => exact ⟨rfl, rfl⟩

/-- The search for the addresses of a server puts nothing into `ret`. -/
theorem getAs_final {doResolve : ResolveFn W} (tns : Octets) (depth : Nat) (s : SyncState W) :
    ((R.getAs doResolve tns depth).final s).steps = s.steps ∧
      ((R.getAs doResolve tns depth).final s).ended =
        ((doResolve tns (if R.s_doIPv6 then QType.ADDR else QType.A) [] (depth + 1)).final s).ended := by
  have hshuffled : ∀ ret : List ComboAddress,
      Quiet (if ret.length > 1 then SyncM.onWorld (R.shuffleAddresses tns ret) else pure ret) := by
    intro ret
    split
    · exact .onWorld
    · exact .pure
  exact Quiet.after (fun _ => hshuffled _) s

theorem soa_places {zone : AuthDomain} {authdomain : Octets} {rr : TextRR}
    (h : rr ∈ zone.soa authdomain) : rr.d_place = .AUTHORITY := by
  rw [AuthDomain.soa, mem_toList, map_eq_some_iff] at h
  obtain ⟨rr', -, rfl⟩ := h
  rfl

/-- The records of a zone served here are all answers, or all in the authority section. -/
theorem answer_places (zone : AuthDomain) (apex authdomain qname : Octets) (qtype : UInt16) :
    (∀ rr ∈ (zone.answer apex authdomain qname qtype).1, rr.d_place = .ANSWER) ∨
      ∀ rr ∈ (zone.answer apex authdomain qname qtype).1, rr.d_place = .AUTHORITY := by
  unfold AuthDomain.answer
  dsimp only
  split
  · refine .inl fun rr hrr => zone.places rr ?_
    exact mem_of_mem_filter (mem_of_mem_filter hrr)
  split
  · exact .inr fun rr hrr => soa_places hrr
  split
  · exact .inr fun rr hrr => soa_places hrr
  · refine .inr fun rr hrr => ?_
    obtain ⟨nsdomain, -, hrr⟩ := mem_flatMap.mp hrr
    obtain ⟨rr', -, rfl⟩ := mem_map.mp hrr
    rfl

theorem inSectionOrder_of_place {rrs : List TextRR} {place : Place}
    (h : ∀ rr ∈ rrs, rr.d_place = place) : InSectionOrder rrs :=
  pairwise_of_forall_mem_list fun a ha b hb => by rw [h a ha, h b hb]

theorem doOOBResolve_ordered (qname : Octets) (qtype : UInt16) (res : Int) :
    InSectionOrder (R.doOOBResolve qname qtype [] res).1 := by
  unfold doOOBResolve
  split
  · exact .nil
  · next authdomain iter _ =>
    rcases answer_places iter.2 iter.1 authdomain qname qtype with h | h
    · exact inSectionOrder_of_place h
    · exact inSectionOrder_of_place h

variable {I F : Pred}

theorem AsksServers.carries
    {depth : Nat} (h : AsksServers R doResolve qname qtype depth I F)
    (cfg : ResolverConfig) :
    Carries (R.resolver doResolve qname qtype) cfg qname qtype depth I.on F.on
      fun lwr => InSectionOrder lwr.d_result where
  stop := h.stop
  shuffle _ hI := hI
  getAs tns hI := by
    obtain ⟨hsteps, hended⟩ := @getAs_final _ R doResolve tns (depth + 1) _
    have hafter := h.getAs tns hI
    rw [← hended] at hafter
    rwa [← hsteps] at hafter
  shouldThrottle _ hI := hI
  outOfBand hI := ⟨hI, doOOBResolve_ordered _ _ _⟩
  wire _ _ _ _ hI := by
    exact ⟨hI, ParsedReply.ordered _⟩
  observe he hI := by
    obtain ⟨hsteps, hended⟩ := observe_steps he
    rwa [Pred.on, hsteps, hended]
  observe_end he hF := by
    obtain ⟨hsteps, hended⟩ := observe_steps he
    rwa [Pred.on, hsteps, hended]
  settled hL hreap hI hv := h.settled hL hreap hI hv
  goesOn hL hreap hI hv := h.goesOn hL hreap hI hv
  follow {ret s} newtarget hdepth hI :=
    (h.follow newtarget hdepth { s with beenthere := [] } hI).2

theorem AsksServers.askServers
    {depth : Nat} (h : AsksServers R doResolve qname qtype depth I F)
    {ret : List TextRR} :
    Triple (I.on ret) (fun _ => True) (R.askServers doResolve qname qtype ret depth)
      fun r => F.on r.2 := by
  refine .bind (findServers_quiet 2 qname false).triple fun ⟨subdomain, nsset, flawedNSSet⟩ => ?_
  refine .bind Quiet.look.triple fun now => ?_
  refine .bind ((h.carries _).doResolveAt ⟨by omega, by omega⟩) fun ⟨res, ret⟩ => ?_
  refine .given fun hsome => ?_
  obtain ⟨res, rfl⟩ := isSome_iff_exists.mp hsome
  exact .pure fun s hF => hF

/-! ### The caches -/

/-- The conditions for `doCacheCheck`. -/
structure FromCache (I F : Pred) : Prop where
  /-- Every record of a set was fresh. -/
  hit {ret steps ended now ne cset} : (∀ j ∈ cset, j.d_place = .ANSWER) → I ret steps ended →
    (∀ j ∈ cset, j.ttl > now) →
    F (ret ++ cset.map (fromCache now ne)) (steps ++ [.cached now ne.isSome cset]) ended
  /-- A record had expired, or there was none. -/
  stale {ret steps ended now ne cset} : (∀ j ∈ cset, j.d_place = .ANSWER) → I ret steps ended →
    (cset ≠ [] → ∃ j ∈ cset, ¬ j.ttl > now) →
    I (ret ++ (cset.filter fun j => j.ttl > now).map (fromCache now ne))
      (steps ++ [.cached now ne.isSome cset]) ended

/-- The conditions for the part of `doResolve` that asks no servers. -/
structure UsesCaches (R : SyncRes W) (doResolve : ResolveFn W) (qname : Octets) (qtype : UInt16)
    (depth : Nat) (I F : Pred) : Prop extends FromCache I F where
  stop {ret steps ended} : I ret steps ended → F ret steps ended
  /-- The zone is served here. -/
  served {ret steps ended} : R.d_cacheonly = true → I ret steps ended →
    F (R.doOOBResolve qname qtype [] 0).1 steps ended
  /-- A forwarder replied. -/
  forwarded {ret steps ended} (result : List TextRR) : R.d_cacheonly = true → I ret steps ended →
    F (ret ++ result.filter fun i => i.d_place = .ANSWER) steps ended
  /-- A CNAME was in the cache. -/
  cname {ret steps ended} {j : TextRR} : j.d_place = .ANSWER → I ret steps ended →
    I (ret ++ [j]) steps ended
  /-- A CNAME is followed. -/
  follow {ret} (newtarget) : depth ≤ 10 →
    Triple (I.on ret) (fun _ => True) (doResolve newtarget qtype ret (depth + 1))
      fun r => F.on r.2

/-- What holds when a part may have found the answer, and `p` if it has not. -/
def Found (p : Prop) (I F : Pred) : Option Int × List TextRR → SyncState W → Prop
  | (some _, ret), s => F.on ret s
  | (none, ret), s => p ∧ I.on ret s

theorem FromCache.doCacheCheck (h : FromCache I F) (qname : Octets) (qtype : UInt16)
    (ret : List TextRR) :
    Triple (I.on ret) (fun _ => True) (R.doCacheCheck qname qtype ret) (Found True I F) := by
  refine .bind Quiet.look.triple fun range => ?_
  refine .bind (negativelyCached_quiet qtype range).triple fun ne => ?_
  refine .bind Quiet.onWorld.triple fun ⟨ttd, cset⟩ => ?_
  dsimp only
  split
  · refine .bind Quiet.look.triple fun now => ?_
    have hplaces : ∀ j ∈ cset.map Subtype.val, j.d_place = .ANSWER := by
      intro j hj
      obtain ⟨⟨j', hj'⟩, -, rfl⟩ := mem_map.mp hj
      exact hj'
    generalize cset.map Subtype.val = cset at hplaces ⊢
    refine .bind (Q := fun _ s => ∃ steps, s.steps = steps ++ [.cached now ne.isSome cset] ∧
      I ret steps s.ended) (.call fun s hI => ⟨s.steps, rfl, by exact hI⟩) fun _ => ?_
    split
    · next hfresh =>
      have hall : ∀ j ∈ cset, j.ttl > now := by
        simpa [filter_eq_self] using hfresh.2
      have hpushed : ∀ s : SyncState W, (∃ steps, s.steps = steps ++
          [.cached now ne.isSome cset] ∧ I ret steps s.ended) →
          F.on (ret ++ (cset.filter fun j => j.ttl > now).map (fromCache now ne)) s := by
        rintro s ⟨steps, hsteps, hI⟩
        rw [Pred.on, hsteps, hfresh.2]
        exact h.hit hplaces hI hall
      cases ne with
      | some ni => exact .pure hpushed
      | none => exact .pure hpushed
    · next hexpired =>
      refine .pure fun s hs => ⟨trivial, ?_⟩
      obtain ⟨steps, hsteps, hI⟩ := hs
      rw [Pred.on, hsteps]
      refine h.stale hplaces hI fun hne => ?_
      by_contra hall
      push Not at hall
      have hself : (cset.filter fun j => j.ttl > now) = cset := by
        simpa [filter_eq_self] using hall
      exact hexpired ⟨by rwa [hself], hself⟩
  · exact .pure fun s hI => ⟨trivial, hI⟩

namespace UsesCaches

variable {doResolve : ResolveFn W} {qname : Octets} {qtype : UInt16} {depth : Nat} {I F : Pred}
  (h : UsesCaches R doResolve qname qtype depth I F) {ret : List TextRR}

include h

theorem doCNAMECacheCheck :
    Triple (I.on ret) (fun _ => True) (R.doCNAMECacheCheck doResolve qname qtype ret depth)
      (Found (depth ≤ 10) I F) := by
  unfold SyncRes.doCNAMECacheCheck
  split
  · exact .pure fun s hI => h.stop hI
  next hdepth =>
    have hdepth := Nat.le_of_not_lt hdepth
    refine .bind Quiet.onWorld.triple fun ⟨ttd, cset⟩ => ?_
    refine .bind Quiet.look.triple fun now => ?_
    cases hfresh : freshCNAME now ttd cset with
    | none => exact .pure fun s hI => ⟨hdepth, hI⟩
    | some j =>
      have hplace : j.d_place = .ANSWER := by
        unfold freshCNAME at hfresh
        split at hfresh
        · obtain ⟨⟨j', hj'⟩, -, rfl⟩ := mem_map.mp (mem_of_find?_eq_some hfresh)
          exact hj'
        · cases hfresh
      have hpushed : ∀ s : SyncState W, I.on ret s → I.on (ret ++ [{ j with ttl := j.ttl - now }]) s :=
        fun s hI => h.cname hplace hI
      dsimp only
      split
      · refine .bind (Q := fun r => F.on r.2) ?_ fun r => ?_
        · exact fun s hI => ⟨fun _ _ => trivial,
            (h.follow j.content hdepth { s with beenthere := [] } (hpushed s hI)).2⟩
        · obtain ⟨res, ret⟩ := r
          exact .pure fun s hF => hF
      · exact .pure fun s hI => h.stop (hpushed s hI)

theorem peekAuthZones :
    Triple (I.on ret) (fun _ => True) (R.peekAuthZones qname qtype ret) (Found True I F) := by
  unfold SyncRes.peekAuthZones
  split
  · exact .pure fun s hI => ⟨trivial, hI⟩
  next hcacheonly =>
    have hcacheonly : R.d_cacheonly = true := by simpa using hcacheonly
    split
    · exact .pure fun s hI => ⟨trivial, hI⟩
    · split
      · exact .pure fun s hI => h.served hcacheonly hI
      · refine .bind Quiet.onWorld.triple fun ⟨res, lwr⟩ => .pure fun s hI => ?_
        exact h.forwarded lwr.d_result hcacheonly hI

theorem consultCaches :
    Triple (I.on ret) (fun _ => True) (R.consultCaches doResolve qname qtype ret depth)
      (Found (depth ≤ 10 ∨ qtype = QType.NS) I F) := by
  unfold SyncRes.consultCaches
  split
  · next hskip =>
    simp only [skipsCaches, Bool.and_eq_true, beq_iff_eq] at hskip
    exact .pure fun s hI => ⟨.inr hskip.1.2, hI⟩
  refine .bind h.peekAuthZones fun ⟨res, ret⟩ => ?_
  cases res with
  | some res => exact .pure fun s hF => hF
  | none =>
    refine .given fun _ => .bind h.doCNAMECacheCheck fun ⟨res, ret⟩ => ?_
    cases res with
    | some res => exact .pure fun s hF => hF
    | none =>
      refine .given fun hdepth =>
        (h.toFromCache.doCacheCheck qname qtype ret).mono fun ⟨res, ret⟩ s hfound => ?_
      cases res with
      | some res => exact hfound
      | none => exact ⟨.inl hdepth, hfound.2⟩

end UsesCaches

/-- **The rule for one call.** What is carried along by the caches and, where they are not left
out of account or the depth is not exceeded, by asking servers, is carried along by `doResolve`. -/
theorem doResolve_step {levels depth : Nat}
    (hcaches : UsesCaches R (R.doResolve levels) qname qtype depth I F)
    (hask : depth ≤ 10 ∨ qtype = QType.NS →
      AsksServers R (R.doResolve levels) qname qtype depth I F) (ret : List TextRR) :
    Triple (I.on ret) (fun _ => True) (R.doResolve (levels + 1) qname qtype ret depth)
      fun r => F.on r.2 := by
  refine .bind hcaches.consultCaches fun ⟨res, ret⟩ => ?_
  cases res with
  | some res => exact .pure fun s hF => hF
  | none =>
    refine .given fun hreached => ?_
    dsimp only
    split
    · exact .pure fun s hI => hcaches.stop hI
    · exact (hask hreached).askServers

end SyncRes

end PowerDNS
