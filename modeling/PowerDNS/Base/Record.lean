import PowerDNS.Base.Octets

/-!
# Resource records

`DNSResourceRecord` (`dns.hh`) is the record that backends, packet handler and recursor
pass around. Its owner is a text in the recursor and a label sequence in the model of the
packet handler, so the type of names is a parameter. The type codes of `qtype.hh` and the
response codes of `dns.hh` are the constants the code compares against.
-/

namespace PowerDNS

namespace QType

/-- `QType::typeenum`, the members the modelled code names. -/
abbrev A : UInt16 := 1
abbrev NS : UInt16 := 2
abbrev CNAME : UInt16 := 5
abbrev SOA : UInt16 := 6
abbrev MR : UInt16 := 9
abbrev PTR : UInt16 := 12
abbrev HINFO : UInt16 := 13
abbrev MX : UInt16 := 15
abbrev TXT : UInt16 := 16
abbrev RP : UInt16 := 17
abbrev AFSDB : UInt16 := 18
abbrev KEY : UInt16 := 25
abbrev AAAA : UInt16 := 28
abbrev LOC : UInt16 := 29
abbrev SRV : UInt16 := 33
abbrev NAPTR : UInt16 := 35
abbrev CERT : UInt16 := 37
abbrev OPT : UInt16 := 41
abbrev DS : UInt16 := 43
abbrev SSHFP : UInt16 := 44
abbrev RRSIG : UInt16 := 46
abbrev NSEC : UInt16 := 47
abbrev DNSKEY : UInt16 := 48
abbrev NSEC3 : UInt16 := 50
abbrev NSEC3PARAM : UInt16 := 51
abbrev SPF : UInt16 := 99
abbrev TSIG : UInt16 := 250
abbrev IXFR : UInt16 := 251
abbrev AXFR : UInt16 := 252
abbrev ANY : UInt16 := 255
abbrev URL : UInt16 := 256
abbrev MBOXFW : UInt16 := 257
abbrev CURL : UInt16 := 258
abbrev ADDR : UInt16 := 259

end QType

namespace RCode

/-- `RCode::rcodes_`. -/
abbrev NoError : Nat := 0
abbrev FormErr : Nat := 1
abbrev ServFail : Nat := 2
abbrev NXDomain : Nat := 3
abbrev NotImp : Nat := 4
abbrev Refused : Nat := 5

end RCode

/-- `DNSResourceRecord::Place`: the section a record belongs to. -/
inductive Place
  | QUESTION
  | ANSWER
  | AUTHORITY
  | ADDITIONAL
  deriving DecidableEq, Repr

/-- `DNSResourceRecord` with owner names of type `N` and contents of type `C`, a text unless
said otherwise; the defaults are those of its constructor. -/
structure DNSResourceRecord (N : Type) (C : Type := Octets) where
  qtype : UInt16
  qclass : UInt16 := 1
  qname : N
  wildcardname : N
  content : C
  priority : UInt16 := 0
  ttl : UInt32
  domain_id : Int := 0
  last_modified : Int := 0
  d_place : Place := .ANSWER
  auth : Bool := false
  deriving DecidableEq

/-- A record with its owner as a text. -/
abbrev TextRR := DNSResourceRecord Octets

/-- `DNSResourceRecord::operator<`. -/
def rrLess (a b : TextRR) : Bool :=
  decide (a.qname < b.qname) || (a.qname == b.qname && decide (a.content < b.content))

end PowerDNS
