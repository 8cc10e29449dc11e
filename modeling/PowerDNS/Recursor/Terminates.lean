import PowerDNS.Recursor.ResolutionRules

/-!
# Every resolution ends

`doResolve` calls itself for the target of a CNAME and, by way of `getAs`, for the addresses of a
name server; what it finds in caches and replies decides how often. What stops it is the depth:
`doCNAMECacheCheck` gives up at a depth above 10, and only the name servers of the root are looked
for without it. So thirteen levels of calls are enough, whatever the servers reply, and within one
call every referral leads closer to the name.
-/

namespace PowerDNS

open LoggedRun

namespace SyncRes

variable {W : Type} {R : SyncRes W}

/-- The levels of calls that a call can need: one if it is too deep, and otherwise one for each
depth from here on, and two more for the name servers of the root. -/
def EnoughLevels (levels depth : Nat) (qtype : UInt16) : Prop :=
  1 ≤ levels ∧ (10 < depth ∧ qtype ≠ QType.NS ∨ 2 ≤ levels ∧ 13 ≤ levels + depth)

/-- Calls one level deeper have enough levels too, if this one makes any. -/
theorem EnoughLevels.deeper {levels depth : Nat} {qtype : UInt16}
    (h : EnoughLevels (levels + 1) depth qtype) (hreached : depth ≤ 10) :
    EnoughLevels levels (depth + 1) qtype := by
  obtain ⟨-, hdeep | henough⟩ := h
  · omega
  · exact ⟨by omega, .inr ⟨by omega, by omega⟩⟩

/-- So have those for the addresses of a server, which are never about name servers. -/
theorem EnoughLevels.addresses {levels depth : Nat} {qtype qtype' : UInt16}
    (h : EnoughLevels (levels + 1) depth qtype) (hreached : depth ≤ 10 ∨ qtype = QType.NS)
    (hqtype : qtype' ≠ QType.NS) : EnoughLevels levels (depth + 1 + 1) qtype' := by
  obtain ⟨-, hdeep | henough⟩ := h
  · exact absurd (hreached.resolve_left (by omega)) hdeep.2
  · by_cases hdepth : 10 < depth + 1 + 1
    · exact ⟨by omega, .inl ⟨hdepth, hqtype⟩⟩
    · exact ⟨by omega, .inr ⟨by omega, by omega⟩⟩

/-- No call is cut off. -/
def Uncut (ended : Bool) : Pred := fun _ _ ended' => ended' = ended

theorem doResolve_uncut {ended : Bool} (levels : Nat) (qname : Octets) (qtype : UInt16)
    (ret : List TextRR) (depth : Nat) (hlevels : EnoughLevels levels depth qtype) :
    Triple ((Uncut ended).on ret) (fun _ => True) (R.doResolve levels qname qtype ret depth)
      fun r => (Uncut ended).on r.2 := by
  induction levels generalizing qname qtype ret depth with
  | zero => exact absurd hlevels.1 (by omega)
  | succ levels ih =>
    refine doResolve_step ?_ (fun hreached => ?_) ret
    · exact
        { stop := id
          served := fun _ => id
          forwarded := fun _ _ => id
          cname := fun _ => id
          follow := fun newtarget hdepth => ih newtarget qtype _ _ (hlevels.deeper hdepth)
          hit := fun _ hI _ => hI
          stale := fun _ hI _ => hI }
    · have haddress : (if R.s_doIPv6 then QType.ADDR else QType.A) ≠ QType.NS := by
        split <;> decide
      exact
        { stop := id
          getAs := fun tns hI => (ih tns _ [] _ (hlevels.addresses hreached haddress) _ hI).2
          settled := fun _ _ hI _ => hI
          goesOn := fun _ _ hI _ => hI
          follow := fun newtarget hdepth => ih newtarget qtype _ _ (hlevels.deeper hdepth) }

/-- **Every resolution ends.** Whatever the servers reply and the caches hold, with thirteen levels
of calls or more none is cut off, neither for lack of levels nor, in `doResolveAt`, for lack of
referrals. In every `doResolveAt` each `auth` is strictly more specific than the one before it, and
the name ends on it. -/
theorem doResolve_ends (R : SyncRes W) :
    (∀ (levels : Nat) (qname : Octets) (qtype : UInt16) (ret : List TextRR) (depth : Nat)
      (s : SyncState W),
      ((R.doResolve (levels + 13) qname qtype ret depth).final s).ended = s.ended) ∧
    ∀ (levels : Nat) (cfg : ResolverConfig) (qname : Octets) (qtype : UInt16) (depth fuel : Nat)
      (nameservers : List Octets) (auth : Octets) (flawedNSSet : Bool) (ret : List TextRR)
      (s : SyncState W),
      (authLevels ((doResolveAt (R.resolver (R.doResolve levels) qname qtype) cfg qname qtype
        depth fuel nameservers auth flawedNSSet ret).log s)).IsChain (Closer qname) := by
  constructor
  · intro levels qname qtype ret depth s
    have henough : EnoughLevels (levels + 13) depth qtype :=
      ⟨by omega, .inr ⟨by omega, by omega⟩⟩
    exact (doResolve_uncut (levels + 13) qname qtype ret depth henough s rfl).2
  · intro levels cfg qname qtype depth fuel nameservers auth flawedNSSet ret s
    exact (doResolveAt_closer fuel nameservers auth flawedNSSet ret s).2

end SyncRes

end PowerDNS
