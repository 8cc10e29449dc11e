import PowerDNS.Recursor.AnswerChains
import PowerDNS.Recursor.DomainMap

/-!
# Addresses as texts

What `toStringWithPort` writes, `parseIPAndPort` reads back: a text of an IPv4 address has one colon, and one of an
IPv6 address is in brackets, so that what is behind its first colon is no number. A forwarder goes from
`getBestNSNamesFromCache` to `doResolveAt` as such a text behind a `+` or a `-`.
-/

namespace PowerDNS

open List RecZones

/-! ### The code -/

/-- The functions for numeric addresses: `inet_ntop` of either family, `inet_aton` and `makeIPv6sockaddr`. -/
structure Inet where
  inet_ntop : Octets → Octets
  inet_aton : Octets → Option Octets
  makeIPv6sockaddr : Octets → Option Octets

namespace Inet

variable (inet : Inet)

/-- `IpToU32`, with the octets of the number in memory. -/
def ipToU32 (str : Octets) : Option Octets := if str = [] then some [0, 0, 0, 0] else inet.inet_aton str

/-- The constructor of `ComboAddress`; `none` is "Unable to convert presentation address". -/
def comboAddress (str : Octets) (port : UInt16) : Option ComboAddress :=
  match inet.ipToU32 str with
  | some addr => some ⟨addr, port⟩
  | none => (inet.makeIPv6sockaddr str).map fun addr => ⟨addr, port⟩

/-- `toStringWithPort`. -/
def toStringWithPort (ip : ComboAddress) : Octets :=
  if ip.addr.length = 4 then inet.inet_ntop ip.addr ++ 58 :: decimal ip.port.toNat
  else 91 :: inet.inet_ntop ip.addr ++ 93 :: 58 :: decimal ip.port.toNat

/-- The text of an address of one of the families is read as the address, and it has the octets of its family. -/
structure TextForm (addr : Octets) : Prop where
  family : addr.length = 4 ∨ addr.length = 16
  ne_nil : inet.inet_ntop addr ≠ []
  four : addr.length = 4 → inet.inet_aton (inet.inet_ntop addr) = some addr ∧ 58 ∉ inet.inet_ntop addr
  six : addr.length = 16 → inet.inet_aton (inet.inet_ntop addr) = none ∧
    inet.makeIPv6sockaddr (inet.inet_ntop addr) = some addr ∧
    58 ∈ inet.inet_ntop addr ∧ 93 ∉ inet.inet_ntop addr

/-- The texts of ports are read as them, and what a bracket is in is no port. -/
structure Behind (lib : Library) : Prop where
  comboAddress : lib.comboAddress = inet.comboAddress
  port : ∀ port : UInt16, lib.lexicalCast (decimal port.toNat) = some port
  bracket : ∀ s : Octets, 93 ∈ s → lib.lexicalCast s = none

/-! ### There and back -/

theorem splitField_append {s : Octets} {c : UInt8} (h : c ∉ s) (t : Octets) :
    splitField (s ++ c :: t) c = (s, t) := by
  have hall : ∀ x ∈ s, (x != c) = true := fun x hx => bne_iff_ne.mpr fun heq => h (heq ▸ hx)
  unfold splitField
  rw [takeWhile_append_of_pos hall, dropWhile_append_of_pos hall,
    takeWhile_cons_of_neg (by rw [bne_self_eq_false]; exact Bool.false_ne_true),
    dropWhile_cons_of_neg (by rw [bne_self_eq_false]; exact Bool.false_ne_true), append_nil]
  rfl

variable {inet} {lib : Library} {ip : ComboAddress}

theorem comboAddress_ntop (h : inet.TextForm ip.addr) :
    inet.comboAddress (inet.inet_ntop ip.addr) ip.port = some ip := by
  unfold Inet.comboAddress ipToU32
  rw [if_neg h.ne_nil]
  rcases h.family with hfour | hsix
  · rw [(h.four hfour).1]
  · rw [(h.six hsix).1, (h.six hsix).2.1]
    rfl

/-- An address is read back, whatever the default port is. -/
theorem parseIPAndPort_toStringWithPort (hlib : inet.Behind lib) (h : inet.TextForm ip.addr) (port : UInt16) :
    parseIPAndPort lib (inet.toStringWithPort ip) port = some ip := by
  unfold toStringWithPort parseIPAndPort
  rcases h.family with hfour | hsix
  · obtain ⟨-, hcolon⟩ := h.four hfour
    rw [if_pos hfour, if_neg (not_not.mpr (mem_append_right _ mem_cons_self))]
    dsimp only
    rw [splitField_append hcolon, hlib.port, Option.bind_some, hlib.comboAddress, comboAddress_ntop h]
  · obtain ⟨-, -, hcolon, hbracket⟩ := h.six hsix
    have hnot : ip.addr.length ≠ 4 := by rw [hsix]; decide
    rw [if_neg hnot,
      if_neg (not_not.mpr (mem_append_right _ (mem_cons_of_mem _ mem_cons_self)))]
    -- The first colon is in the address, and the bracket behind it is in what should be a port.
    obtain ⟨before, behind, htext, hbefore⟩ := eq_append_cons_of_mem hcolon
    have hfirst : splitField (91 :: inet.inet_ntop ip.addr ++ 93 :: 58 :: decimal ip.port.toNat) 58 =
        (91 :: before, behind ++ 93 :: 58 :: decimal ip.port.toNat) := by
      have hbefore' : 58 ∉ 91 :: before := fun h => (mem_cons.mp h).elim (by decide) hbefore
      rw [htext, ← splitField_append hbefore', cons_append, cons_append, append_assoc]
      rfl
    dsimp only
    rw [hfirst, hlib.bracket _ (mem_append_right _ mem_cons_self), Option.bind_none]
    rw [cons_append, head?_cons, if_pos rfl, tail_cons, splitField_append hbracket]
    rw [if_neg (cons_ne_nil _ _), tail_cons, hlib.port, Option.bind_some, hlib.comboAddress, comboAddress_ntop h]

theorem getLast?_toStringWithPort (ip : ComboAddress) :
    ∃ c ∈ (inet.toStringWithPort ip).getLast?, 48 ≤ c ∧ c ≤ 57 := by
  have hport := decimal_ne_nil ip.port.toNat
  have hdigit := decimal_digits _ _ (getLast_mem hport)
  refine ⟨_, ?_, hdigit⟩
  unfold toStringWithPort
  split
  · rw [getLast?_append_of_ne_nil _ (cons_ne_nil _ _), getLast?_cons, getLast?_eq_some_getLast hport]
    rfl
  · rw [getLast?_append_of_ne_nil _ (cons_ne_nil _ _), getLast?_cons, getLast?_cons,
      getLast?_eq_some_getLast hport]
    rfl

/-! ### Forwarders -/

/-- What `doResolveAt` makes of the name of a server: a hardcoded address, and whether recursion is wanted there. -/
def Decoded {W : Type} (env : Resolver W) (cfg : ResolverConfig) (tns : Octets) (server : ComboAddress)
    (sendRDQuery : Bool) : Prop :=
  tns ≠ [] ∧ isCanonical tns = false ∧ (∀ depth, serverIPs env cfg tns depth = pure [server]) ∧
    (!isCanonical tns && tns.head? == some 43) = sendRDQuery

theorem decoded_of_marked {W : Type} {env : Resolver W} {cfg : ResolverConfig} (hlib : inet.Behind lib)
    (hcfg : ∀ txtAddr addr, parseIPAndPort lib txtAddr 53 = some addr → cfg.parseIPAndPort txtAddr = addr)
    (h : inet.TextForm ip.addr) (rdForward : Bool) :
    Decoded env cfg ((if rdForward then ascii "+" else ascii "-") ++ inet.toStringWithPort ip) ip rdForward := by
  have hmarker : ∃ c, (if rdForward then ascii "+" else ascii "-") = [c] ∧ (c == 43) = rdForward := by
    cases rdForward <;> exact ⟨_, rfl, by decide⟩
  obtain ⟨c, hc, hrd⟩ := hmarker
  rw [hc, singleton_append]
  have hcanonical : isCanonical (c :: inet.toStringWithPort ip) = false := by
    obtain ⟨last, hlast, hdigit⟩ := @getLast?_toStringWithPort inet ip
    unfold isCanonical
    rw [getLast?_cons, Option.mem_def.mp hlast, beq_eq_false_iff_ne]
    rintro heq
    obtain rfl := Option.some.inj heq
    exact absurd hdigit (by decide)
  refine ⟨cons_ne_nil _ _, hcanonical, fun depth => ?_, ?_⟩
  · unfold serverIPs
    rw [hcanonical, drop_one, tail_cons, hcfg _ _ (parseIPAndPort_toStringWithPort hlib h 53)]
    rfl
  · rw [hcanonical, ← hrd]
    rfl

/-- **Addresses survive as texts**: `parseIPAndPort` reads back what `toStringWithPort` writes, and what
`getBestNSNamesFromCache` makes of the forwarders of a zone are names from which `doResolveAt` gets the forwarders. -/
theorem addresses_survive {W V : Type} {R : SyncRes W} (env : Resolver V) (hlib : inet.Behind lib)
    (htext : R.toStringWithPort = inet.toStringWithPort)
    (hcfg : ∀ txtAddr addr, parseIPAndPort lib txtAddr 53 = some addr →
      R.settings.parseIPAndPort txtAddr = addr) :
    (∀ ip : ComboAddress, inet.TextForm ip.addr → ∀ port,
      parseIPAndPort lib (inet.toStringWithPort ip) port = some ip) ∧
    ∀ qname authdomain iter flawedNSSet, R.getBestAuthZone qname = some (authdomain, iter) →
      iter.2.d_servers ≠ [] → (∀ server ∈ iter.2.d_servers, inet.TextForm server.addr) →
      ∃ nsset, R.getBestNSNamesFromCache qname flawedNSSet = pure (authdomain, nsset, flawedNSSet) ∧
        ∀ tns ∈ nsset, ∃ server ∈ iter.2.d_servers,
          Decoded env R.settings tns server iter.2.d_rdForward := by
  refine ⟨fun ip h => parseIPAndPort_toStringWithPort hlib h, ?_⟩
  intro qname authdomain iter flawedNSSet hzone hservers hform
  unfold SyncRes.getBestNSNamesFromCache
  rw [hzone]
  refine ⟨_, rfl, fun tns htns => ?_⟩
  rw [if_neg (mt map_eq_nil_iff.mp hservers)] at htns
  have hmem : ∀ servers nsset : List Octets,
      tns ∈ servers.foldl (fun nsset server => setInsert pdnsIlexicographicalCompare server nsset) nsset →
        tns ∈ nsset ∨ tns ∈ servers := by
    intro servers
    induction servers with
    | nil => exact fun _ h => .inl h
    | cons server servers ih =>
      intro nsset h
      rcases ih _ h with h | h
      · exact (mem_setInsert h).elim (fun h => .inr (h ▸ mem_cons_self)) .inl
      · exact .inr (mem_cons_of_mem _ h)
  obtain ⟨server, hserver, rfl⟩ := mem_map.mp ((hmem _ _ htns).resolve_left not_mem_nil)
  rw [htext]
  exact ⟨server, hserver, decoded_of_marked hlib hcfg (hform server hserver) _⟩

/-- A resolver that forwards a zone to 10.0.0.1, port 5300. -/
def ten : Inet where
  inet_ntop addr := [dot].intercalate (addr.map fun octet => decimal octet.toNat)
  inet_aton str := if str = ascii "10.0.0.1" then some [10, 0, 0, 1] else none
  makeIPv6sockaddr _ := none

def tenLibrary : Library where
  namemap := []
  snprintf _ _ := []
  comboAddress := ten.comboAddress
  lexicalCast s := if s.all isDigit then some (UInt16.ofNat (readDigits 0 s)) else none
  stored := some
  turns := 0

def tenResolver : SyncRes Unit :=
  { SyncRes.localResolver with
    settings :=
      { defaultConfig with parseIPAndPort := fun txt => (parseIPAndPort tenLibrary txt 53).getD ⟨[], 0⟩ }
    toStringWithPort := ten.toStringWithPort
    domainmap := [(ascii "corp.",
      { d_servers := [⟨[10, 0, 0, 1], 5300⟩], d_rdForward := true, d_records := [], places := nofun })] }

theorem ten_behind : ten.Behind tenLibrary where
  comboAddress := rfl
  port port := by
    have hdigits : (decimal port.toNat).all isDigit = true :=
      all_eq_true.mpr fun c hc => isDigit_iff.mpr (decimal_digits _ c hc)
    unfold tenLibrary
    dsimp only
    rw [if_pos hdigits, readDigits_decimal, UInt16.ofNat_toNat]
  bracket s h := if_neg fun hall => absurd (all_eq_true.mp hall _ h) (by decide)

theorem ten_survives :
    ∃ nsset, tenResolver.getBestNSNamesFromCache (ascii "www.corp.") false =
        pure (ascii "corp.", nsset, false) ∧
      ∀ tns ∈ nsset, ∃ server ∈ [⟨[10, 0, 0, 1], 5300⟩],
        Decoded (staticServer (reply RCode.ServFail [])) tenResolver.settings tns server true := by
  have htext : ten.TextForm [10, 0, 0, 1] := ⟨.inl rfl, by decide, fun _ => by decide, nofun⟩
  have hcfg (txtAddr : Octets) (addr : ComboAddress) (h : parseIPAndPort tenLibrary txtAddr 53 = some addr) :
      tenResolver.settings.parseIPAndPort txtAddr = addr := by
    unfold tenResolver
    dsimp only
    rw [h]
    rfl
  refine (addresses_survive (R := tenResolver) _ ten_behind rfl hcfg).2 (ascii "www.corp.") (ascii "corp.")
    (_, _) false rfl (cons_ne_nil _ _) ?_
  intro server hserver
  rw [mem_singleton.mp hserver]
  exact htext

end Inet

end PowerDNS
