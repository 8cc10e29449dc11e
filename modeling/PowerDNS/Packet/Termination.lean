import PowerDNS.Packet.Framing

/-!
# The reader of names terminates

The loop of `getLabelFromContent` is modelled with fuel. Every turn of it either moves the reader
forward in a packet of at most 65535 octets or, at a pointer, uses up one of the ten levels of
recursion, so the fuel the model gives it is never used up: `getLabel_ne_fuel`.
-/

namespace PowerDNS

theorem bind_ne_fuel {α β : Type} {m : Except ReadError α} {k : α → Except ReadError β}
    (hm : m ≠ .error .fuel) (hk : ∀ a, m = .ok a → k a ≠ .error .fuel) :
    m >>= k ≠ .error .fuel := by
  cases m with
  | error e => exact fun h => hm (by cases h; rfl)
  | ok a => exact hk a rfl

section Fuel

variable {content : Octets}

theorem ok_ne_fuel {α : Type} (a : α) : (pure a : Except ReadError α) ≠ .error .fuel := by
  intro h
  cases h

theorem contentAt_ne_fuel (d_pos : UInt16) : contentAt content d_pos ≠ .error .fuel := by
  unfold contentAt
  split <;> exact fun h => by cases h

theorem readLabelOctets_ne_fuel (n : Nat) (d_pos : UInt16) (ret : Octets) :
    readLabelOctets content n d_pos ret ≠ .error .fuel := by
  induction n generalizing d_pos ret with
  | zero => exact fun h => by cases h
  | succ n ih => exact bind_ne_fuel (contentAt_ne_fuel _) fun c _ => ih _ _

/-- A level of recursion is worth a whole packet. -/
theorem level_lt {recurs d fuel : Nat} (hrecurs : recurs ≤ 10)
    (hfuel : (11 - recurs) * 65537 + (65536 - d) < fuel + 1) (k : Nat) :
    (11 - (recurs + 1)) * 65537 + (65536 - k) < fuel := by
  generalize hpacket : 65537 = packet at hfuel ⊢
  rw [show 11 - recurs = 11 - (recurs + 1) + 1 by omega, Nat.succ_mul] at hfuel
  omega

/-- A name: the levels of recursion that are left count for a packet each. -/
theorem getLabelFromContent_ne_fuel (hsize : content.length ≤ 65535) {fuel : Nat}
    {d_pos : UInt16} (ret : Octets) {recurs : Nat} (hrecurs : recurs ≤ 11)
    (hfuel : (11 - recurs) * 65537 + (65536 - d_pos.toNat) < fuel) :
    getLabelFromContent content fuel d_pos ret recurs ≠ .error .fuel := by
  induction fuel generalizing d_pos ret recurs with
  | zero => omega
  | succ fuel ih =>
    rw [getLabelFromContent]
    split
    next => exact fun h => by cases h
    next hlevel =>
      refine bind_ne_fuel (contentAt_ne_fuel _) fun c hc => ?_
      have hlt := contentAt_lt hc
      have hsucc := toNat_succ hsize hlt
      split
      next => exact ok_ne_fuel _
      next hzero =>
        split
        next =>
          refine bind_ne_fuel (contentAt_ne_fuel _) fun lo _ => ?_
          exact bind_ne_fuel (ih ret (by omega) (level_lt (by omega) hfuel _)) fun r _ =>
            ok_ne_fuel _
        next =>
          refine bind_ne_fuel (readLabelOctets_ne_fuel _ _ _) fun v hv => ih _ hrecurs ?_
          have hpos := (readLabelOctets_ok hsize (by omega) hv).1
          omega

theorem getLabel_ne_fuel (hsize : content.length ≤ 65535) (d_pos : UInt16) :
    getLabel content d_pos ≠ .error .fuel := by
  refine getLabelFromContent_ne_fuel hsize [] (Nat.zero_le 11) ?_
  unfold labelFuel
  omega

end Fuel

end PowerDNS
