import PowerDNS.Recursor.DomainMap

/-!
# Reloading the zones of the recursor

At its start the recursor declares its parameters, reads the command line, `recursor.conf` and the command
line again, and builds the domain map. `reloadAuthAndForwards` sets five parameters back to their defaults,
looks for each of them in `recursor.conf`, and builds the map again. What the command line says of the five is
forgotten, and two parameters that the map depends on keep the values of the start: `forward-zones-recurse`
and `etc-hosts-file`.

`reload_eq_restart` is about a recursor that has been started and then run in any way: a reload that fails
leaves the map alone, and one that succeeds installs the map of a fresh start, provided that the two
parameters are as they were at the start and that the five can be read from the file alone (`Carried`).
-/

namespace PowerDNS

open Option List

namespace RecZones

open ArgvMap

/-! ### The start -/

/-- Texts that are set when the program is built. -/
structure Build where
  SYSCONFDIR : Octets
  LOCALSTATEDIR : Octets
  VERSION : Octets

/-- `LOCAL_NETS`. -/
def localNets : Octets := ascii "127.0.0.0/8, 10.0.0.0/8, 192.168.0.0/16, 172.16.0.0/12, ::1/128, fe80::/10"

def configDir : Octets := ascii "config-dir"

/-- The parameters of the recursor with their defaults, but for those that depend on the build. -/
def declarations : List (Octets × Octets) :=
  [(ascii "stack-size", ascii "200000"), (ascii "soa-minimum-ttl", ascii "0"),
    (ascii "soa-serial-offset", ascii "0"), (ascii "no-shuffle", ascii "off"),
    (ascii "aaaa-additional-processing", ascii "off"), (ascii "local-port", ascii "53"),
    (ascii "local-address", ascii "127.0.0.1"), (ascii "trace", ascii "off"), (ascii "daemon", ascii "yes"),
    (ascii "log-common-errors", ascii "yes"), (ascii "chroot", []), (ascii "setgid", []), (ascii "setuid", []),
    (ascii "network-timeout", ascii "1500"), (ascii "threads", ascii "2"), (ascii "processes", ascii "1"),
    (ascii "quiet", []), (ascii "logging-facility", []), (ascii "socket-owner", []),
    (ascii "socket-group", []), (ascii "socket-mode", []), (ascii "delegation-only", []),
    (ascii "query-local-address", ascii "0.0.0.0"), (ascii "query-local-address6", []),
    (ascii "client-tcp-timeout", ascii "2"), (ascii "max-mthreads", ascii "2048"),
    (ascii "max-tcp-clients", ascii "128"), (ascii "hint-file", []),
    (ascii "max-cache-entries", ascii "1000000"), (ascii "max-negative-ttl", ascii "3600"),
    (ascii "max-cache-ttl", ascii "86400"), (ascii "packetcache-ttl", ascii "3600"),
    (ascii "max-packetcache-entries", ascii "500000"), (ascii "packetcache-servfail-ttl", ascii "60"),
    (ascii "server-id", []), (ascii "remotes-ringbuffer-entries", ascii "0"), (ascii "allow-from", localNets),
    (ascii "allow-from-file", []), (ascii "entropy-source", ascii "/dev/urandom"),
    (ascii "dont-query", localNets), (ascii "max-tcp-per-client", ascii "0"),
    (ascii "spoof-nearmiss-max", ascii "20"), (ascii "single-socket", ascii "off"), (authZones, []),
    (forwardZones, []), (forwardZonesRecurse, []), (forwardZonesFile, []), (exportEtcHosts, ascii "off"),
    (etcHostsFile, ascii "/etc/hosts"), (serveRFC1918, []), (ascii "auth-can-lower-ttl", ascii "off"),
    (ascii "lua-dns-script", []), (ascii "ignore-rd-bit", ascii "off"),
    (ascii "disable-edns-ping", ascii "no"), (ascii "disable-edns", []),
    (ascii "disable-packetcache", ascii "no"), (ascii "pdns-distributes-queries", ascii "no"),
    (ascii "help", ascii "no"), (ascii "version", ascii "no"), (ascii "config", ascii "no")]

/-- The other ones. -/
def builtDeclarations (build : Build) : List (Octets × Octets) :=
  [(configDir, build.SYSCONFDIR), (ascii "socket-dir", build.LOCALSTATEDIR),
    (ascii "version-string", ascii "PowerDNS Recursor " ++ build.VERSION ++ ascii " $Id$")]

/-- `set(var, help)=value`, for all of them. -/
def setAll (m : ArgvMap) (defaults : List (Octets × Octets)) : ArgvMap :=
  defaults.foldl (fun m default => m.set default.1 default.2) m

/-- The parameters before anything is read. -/
def declared (build : Build) : ArgvMap :=
  setAll (setAll { params := fun _ => none } declarations) (builtDeclarations build)

/-- The value of a parameter that is declared. -/
def value (m : ArgvMap) (var : Octets) : Octets := (m.params var).getD []

/-- `parse(argc, argv, lax)`. -/
def parse (m : ArgvMap) (argv : List Octets) (lax : Bool) : Except ArgException ArgvMap :=
  argv.foldlM (fun m arg => m.parseOne arg [] lax) m

/-- `cleanSlashes`. -/
def cleanSlashes : Octets → Octets
  | [] => []
  | [c] => [c]
  | c :: d :: s => if c = 47 ∧ d = 47 then cleanSlashes (d :: s) else c :: cleanSlashes (d :: s)

/-- The name of the configuration file. -/
def configName (m : ArgvMap) : Octets := cleanSlashes (value m configDir ++ ascii "/recursor.conf")

/-- Why the recursor does not start. -/
inductive StartError
  | argument (e : ArgException)
  /-- It is asked for its configuration, its version or for help. -/
  | shown
  | zones (e : ParseError)

/-- The parameters of a start. -/
def configure (build : Build) (argv : List Octets) (files : Files) : Except StartError ArgvMap :=
  -- do a lax parse
  match parse (declared build) argv true with
  | .error e => .error (.argument e)
  | .ok m =>
    if mustDo (value m (ascii "config")) then .error .shown
    else
      match m.file (files (configName m)) false with
      | .error e => .error (.argument e)
      | .ok r =>
        match parse r.map argv false with
        | .error e => .error (.argument e)
        | .ok m =>
          let m := m.set (ascii "delegation-only") (toLower (value m (ascii "delegation-only")))
          if mustDo (value m (ascii "help")) || mustDo (value m (ascii "version")) then .error .shown else .ok m

/-- What the recursor keeps of all that. -/
structure Recursor where
  arg : ArgvMap
  domainmap : DomainMap

/-- A start. -/
def start (build : Build) (lib : Library) (argv : List Octets) (files : Files) : Except StartError Recursor :=
  match configure build argv files with
  | .error e => .error e
  | .ok m =>
    match parseAuthAndForwards lib files (value m) with
    | .error e => .error (.zones e)
    | .ok domainmap => .ok ⟨m, domainmap⟩

/-! ### A reload -/

/-- The parameters that a reload reads again, and the defaults it gives them. -/
def reread : List (Octets × Octets) :=
  [(forwardZones, []), (forwardZonesFile, []), (authZones, []), (exportEtcHosts, ascii "off"), (serveRFC1918, [])]

/-- The calls of `preParseFile`. -/
def preParseAll (before : UInt8) (f : Option Octets) (m : ArgvMap) : Except ArgException ArgvMap :=
  reread.foldlM (fun m option => (preParseFile before m f option.1 option.2).map Reading.map) m

/-- `reloadAuthAndForwards()`, and whether it says "ok". `preParseFile` does not throw (`preParseAll_spec`). -/
def reloadAuthAndForwards (lib : Library) (files : Files) (before : UInt8) (s : Recursor) : Recursor × Bool :=
  match preParseAll before (files (configName s.arg)) s.arg with
  | .error _ => (s, false)
  | .ok m =>
    match parseAuthAndForwards lib files (value m) with
    -- keeping original data
    | .error _ => ({ s with arg := m }, false)
    | .ok newDomainMap => (⟨m, newDomainMap⟩, true)

/-- The other parameters that a running recursor sets. -/
inductive OtherParameter
  | quiet
  | luaDnsScript
  | allowFrom
  | allowFromFile

def OtherParameter.name : OtherParameter → Octets
  | quiet => ascii "quiet"
  | luaDnsScript => ascii "lua-dns-script"
  | allowFrom => ascii "allow-from"
  | allowFromFile => ascii "allow-from-file"

/-- What happens to a running recursor. -/
inductive RecursorOp
  | reload (files : Files) (before : UInt8)
  | set (var : OtherParameter) (val : Octets)

def step (lib : Library) (s : Recursor) : RecursorOp → Recursor
  | .reload files before => (reloadAuthAndForwards lib files before s).1
  | .set var val => { s with arg := s.arg.set var.name val }

/-! ### What is wanted of a reload -/

/-- A reload: the files that the running recursor can see, those that a fresh start would see, and what
stands in memory in front of an empty line. -/
structure Reload where
  files : Files
  filesAtStart : Files
  before : UInt8

/-- A reload that succeeds installs the domain map of a fresh start. -/
def InstallsRestart (build : Build) (lib : Library) (argv : List Octets) (s : Recursor) (r : Reload) : Prop :=
  (reloadAuthAndForwards lib r.files r.before s).2 = true → ∃ s', start build lib argv r.filesAtStart = .ok s' ∧
    s'.domainmap = (reloadAuthAndForwards lib r.files r.before s).1.domainmap

/-- A reload that fails leaves the domain map in use. -/
def KeepsOriginal (lib : Library) (s : Recursor) (r : Reload) : Prop :=
  (reloadAuthAndForwards lib r.files r.before s).2 = false →
    (reloadAuthAndForwards lib r.files r.before s).1.domainmap = s.domainmap

/-- **What a reload carries over**, for a recursor that was started with the files of then. -/
structure Carried (build : Build) (argv : List Octets) (filesThen : Files) (r : Reload) : Prop where
  /-- The running recursor sees the files that a fresh start would see. -/
  sees : r.files = r.filesAtStart
  /-- A fresh start accepts the new configuration, and finds there what the recursor was started with, as far
  as a reload does not read it again. -/
  accepted : ∃ m₀ m, configure build argv filesThen = .ok m₀ ∧ configure build argv r.filesAtStart = .ok m ∧
    value m forwardZonesRecurse = value m₀ forwardZonesRecurse ∧
    (mustDo (value m exportEtcHosts) = true → value m etcHostsFile = value m₀ etcHostsFile)
  /-- The configuration file says nothing about its own place. -/
  place : ∀ m₀ m₁, configure build argv filesThen = .ok m₀ → parse (declared build) argv true = .ok m₁ →
    configName m₀ = configName m₁
  /-- The two readers of the file read the same. -/
  plain : ∀ m₁, parse (declared build) argv true = .ok m₁ → ∀ text ∈ r.filesAtStart (configName m₁),
    ReadTheSame r.before text
  /-- The command line says nothing of what is read again. -/
  commandLine : ∀ arg ∈ argv, ∀ option ∈ reread, (varVal arg).1 ≠ option.1

/-! ### Which parameters a reload touches -/

section Touched

variable {m m' : ArgvMap} {var : Octets} {before : UInt8} {f : Option Octets}

/-- Each option is read by its own call, and what is not among them is left alone. -/
theorem preParse_each {options : List (Octets × Octets)} (hnames : ∀ option ∈ options, option.1 ≠ [])
    (hnodup : (options.map Prod.fst).Nodup) (m : ArgvMap) : ∃ m',
    options.foldlM (fun m option => (preParseFile before m f option.1 option.2).map Reading.map) m = .ok m' ∧
      (∀ var, var ∉ options.map Prod.fst → m'.params var = m.params var) ∧
      ∀ option ∈ options, ∃ m₁ r, preParseFile before m₁ f option.1 option.2 = .ok r ∧
        m'.params option.1 = r.map.params option.1 := by
  induction options generalizing m with
  | nil => exact ⟨m, rfl, fun _ _ => rfl, fun _ h => nomatch h⟩
  | cons option options ih =>
    obtain ⟨hname, hnames⟩ := forall_mem_cons.mp hnames
    rw [map_cons, nodup_cons] at hnodup
    obtain ⟨r, hread⟩ := exists_preParseFile before m f hname option.2
    obtain ⟨m', hrest, hframe, heach⟩ := ih hnames hnodup.2 r.map
    refine ⟨m', ?_, fun var hvar => ?_, forall_mem_cons.mpr ⟨⟨m, r, hread, hframe _ hnodup.1⟩, heach⟩⟩
    · rw [foldlM_cons, hread]
      exact hrest
    · rw [map_cons, mem_cons, not_or] at hvar
      rw [hframe var hvar.2, preParseFile_frame hname hvar.1 hread]

theorem preParseAll_spec (before : UInt8) (f : Option Octets) (m : ArgvMap) : ∃ m',
    preParseAll before f m = .ok m' ∧ (∀ var, var ∉ reread.map Prod.fst → m'.params var = m.params var) ∧
      ∀ option ∈ reread, ∃ m₁ r, preParseFile before m₁ f option.1 option.2 = .ok r ∧
        m'.params option.1 = r.map.params option.1 :=
  preParse_each (by decide) (by decide) m

/-- What the command line does not name is left alone. -/
theorem parse_frame {argv : List Octets} {lax : Bool} (h : parse m argv lax = .ok m')
    (hargv : ∀ arg ∈ argv, (varVal arg).1 ≠ var) : m'.params var = m.params var := by
  unfold parse at h
  induction argv generalizing m with
  | nil => rw [Except.ok.inj h]
  | cons arg argv ih =>
    obtain ⟨harg, hargv⟩ := forall_mem_cons.mp hargv
    rw [foldlM_cons] at h
    cases hone : m.parseOne arg [] lax with
    | error e =>
      rw [hone] at h
      cases h
    | ok m₁ =>
      rw [hone] at h
      rw [ih h hargv, parseOne_frame hone (.inl harg)]

/-- **What a start makes of a parameter** that the command line does not name: the value in the file. -/
theorem configure_value {build : Build} {argv : List Octets} {files : Files}
    (h : configure build argv files = .ok m) (hargv : ∀ arg ∈ argv, (varVal arg).1 ≠ var)
    (hvar : var ≠ ascii "delegation-only") : ∃ m₁ r, parse (declared build) argv true = .ok m₁ ∧
      m₁.params var = (declared build).params var ∧ m₁.file (files (configName m₁)) false = .ok r ∧
      m.params var = r.map.params var := by
  unfold configure at h
  cases hlax : parse (declared build) argv true with
  | error e =>
    rw [hlax] at h
    cases h
  | ok m₁ =>
    rw [hlax] at h
    dsimp only at h
    split at h
    next => cases h
    next =>
      cases hfile : m₁.file (files (configName m₁)) false with
      | error e =>
        rw [hfile] at h
        cases h
      | ok r =>
        rw [hfile] at h
        dsimp only at h
        cases hagain : parse r.map argv false with
        | error e =>
          rw [hagain] at h
          cases h
        | ok m₂ =>
          rw [hagain] at h
          dsimp only at h
          split at h
          next => cases h
          next =>
            obtain rfl := Except.ok.inj h
            refine ⟨m₁, r, rfl, parse_frame hlax hargv, hfile, ?_⟩
            rw [set_params_of_ne hvar, parse_frame hagain hargv]

end Touched

/-! ### Running -/

section Running

variable {lib : Library} {s : Recursor}

/-- A parameter that is not read again, and that no other command sets. -/
def Untouched (var : Octets) : Prop :=
  var ∉ reread.map Prod.fst ∧ ∀ other : OtherParameter, var ≠ other.name

theorem untouched_forwardZonesRecurse : Untouched forwardZonesRecurse :=
  ⟨by decide, fun other => by cases other <;> decide⟩

theorem untouched_etcHostsFile : Untouched etcHostsFile :=
  ⟨by decide, fun other => by cases other <;> decide⟩

theorem untouched_configDir : Untouched configDir :=
  ⟨by decide, fun other => by cases other <;> decide⟩

/-- A reload leaves such a parameter alone, whether it succeeds or not. -/
theorem reload_arg (files : Files) (before : UInt8) (s : Recursor) : ∃ m',
    preParseAll before (files (configName s.arg)) s.arg = .ok m' ∧
      (reloadAuthAndForwards lib files before s).1.arg = m' := by
  obtain ⟨m', hread, -⟩ := preParseAll_spec before (files (configName s.arg)) s.arg
  refine ⟨m', hread, ?_⟩
  unfold reloadAuthAndForwards
  rw [hread]
  dsimp only
  split <;> rfl

theorem value_step {var : Octets} (hvar : Untouched var) (o : RecursorOp) :
    value (step lib s o).arg var = value s.arg var := by
  refine congrArg (fun val : Option Octets => val.getD []) ?_
  cases o with
  | set other val => exact set_params_of_ne (hvar.2 other)
  | reload files before =>
    obtain ⟨m', hread, harg⟩ := @reload_arg lib files before s
    obtain ⟨m'', hread', hframe, -⟩ := preParseAll_spec before (files (configName s.arg)) s.arg
    obtain rfl := Except.ok.inj (hread.symm.trans hread')
    change (reloadAuthAndForwards lib files before s).1.arg.params var = _
    rw [harg]
    exact hframe var hvar.1

/-- **A parameter that is not read again keeps the value of the start**, whatever happens. -/
theorem value_run {var : Octets} (hvar : Untouched var) (ops : List RecursorOp) :
    value (GuardedRun.run (step lib) s ops).arg var = value s.arg var := by
  induction ops generalizing s with
  | nil => rfl
  | cons o ops ih => rw [GuardedRun.run_cons, ih, value_step hvar]

/-- A reload that fails leaves the map alone. -/
theorem keepsOriginal (lib : Library) (s : Recursor) (r : Reload) : KeepsOriginal lib s r := by
  intro hfails
  obtain ⟨m', hread, -⟩ := preParseAll_spec r.before (r.files (configName s.arg)) s.arg
  unfold reloadAuthAndForwards at hfails ⊢
  rw [hread] at hfails ⊢
  dsimp only at hfails ⊢
  cases hparse : parseAuthAndForwards lib r.files (value m') with
  | error e => rfl
  | ok newDomainMap =>
    rw [hparse] at hfails
    cases hfails

end Running

/-! ### A reload is a restart -/

section Restart

variable {build : Build} {lib : Library} {argv : List Octets} {filesThen : Files} {s₀ : Recursor}

/-- The parameters that are read again are declared with the defaults that a reload gives them. -/
theorem declared_reread : ∀ option ∈ reread, (declared build).params option.1 = some option.2 := by
  have hfixed : ∀ option ∈ reread, (setAll { params := fun _ => none } declarations).params option.1 =
      some option.2 := by decide
  have hbuilt : ∀ option ∈ reread, ∀ var ∈ [configDir, ascii "socket-dir", ascii "version-string"],
      option.1 ≠ var := by decide
  intro option hoption
  have hother := hbuilt option hoption
  simp only [forall_mem_cons] at hother
  obtain ⟨hconfig, hsocket, hversion, -⟩ := hother
  rw [← hfixed option hoption]
  change (ArgvMap.set (ArgvMap.set (ArgvMap.set _ _ _) _ _) _ _).params option.1 = _
  rw [set_params_of_ne hversion, set_params_of_ne hsocket, set_params_of_ne hconfig]

/-- **What is read again has the value of a fresh start.** -/
theorem reread_value {r : Reload} (hcarried : Carried build argv filesThen r) {s : Recursor}
    (hplace : ∀ m₁, parse (declared build) argv true = .ok m₁ → configName s.arg = configName m₁) {m m' : ArgvMap}
    (hstart : configure build argv r.filesAtStart = .ok m)
    (hreload : preParseAll r.before (r.files (configName s.arg)) s.arg = .ok m') :
    ∀ option ∈ reread, m'.params option.1 = m.params option.1 := by
  intro option hoption
  obtain ⟨hne, hdelegation⟩ : option.1 ≠ [] ∧ option.1 ≠ ascii "delegation-only" := by
    have hnames : ∀ option ∈ reread, option.1 ≠ [] ∧ option.1 ≠ ascii "delegation-only" := by decide
    exact hnames option hoption
  obtain ⟨m₁, r₁, hlax, hdefault, hfile, hvalue⟩ :=
    configure_value hstart (fun arg harg => hcarried.commandLine arg harg option hoption) hdelegation
  rw [declared_reread option hoption] at hdefault
  obtain ⟨m'', hread, -, heach⟩ := preParseAll_spec r.before (r.files (configName s.arg)) s.arg
  obtain rfl := Except.ok.inj (hreload.symm.trans hread)
  obtain ⟨m₂, r₂, hpre, hvalue'⟩ := heach option hoption
  rw [hcarried.sees, hplace m₁ hlax] at hpre
  rw [hvalue, hvalue']
  cases htext : r.filesAtStart (configName m₁) with
  | none =>
    rw [htext] at hfile hpre
    obtain rfl := Except.ok.inj hfile
    obtain rfl := Except.ok.inj hpre
    rw [hdefault]
    exact if_pos rfl
  | some text =>
    rw [htext] at hfile hpre
    exact (same_value (hcarried.plain m₁ hlax text htext) hne hdefault hfile hpre).symm

/-- A recursor starts with the parameters that were read. -/
theorem start_arg {m₀ : ArgvMap} (hstart : start build lib argv filesThen = .ok s₀)
    (hthen : configure build argv filesThen = .ok m₀) : s₀.arg = m₀ := by
  unfold start at hstart
  rw [hthen] at hstart
  dsimp only at hstart
  split at hstart
  next => cases hstart
  next => rw [← Except.ok.inj hstart]

/-- **A reload equals a restart**, for a recursor that has been started and then run in any way, when the reload
carries everything over. If it fails, the map stays in any case. -/
theorem reload_eq_restart (hstart : start build lib argv filesThen = .ok s₀) (ops : List RecursorOp)
    (r : Reload) : KeepsOriginal lib (GuardedRun.run (step lib) s₀ ops) r ∧
      (Carried build argv filesThen r → InstallsRestart build lib argv (GuardedRun.run (step lib) s₀ ops) r) := by
  refine ⟨keepsOriginal lib _ r, fun hcarried hok => ?_⟩
  have hrecurse := @value_run lib s₀ _ untouched_forwardZonesRecurse ops
  have hhosts := @value_run lib s₀ _ untouched_etcHostsFile ops
  have hdir : configName (GuardedRun.run (step lib) s₀ ops).arg = configName s₀.arg :=
    congrArg (fun dir => cleanSlashes (dir ++ ascii "/recursor.conf"))
      (@value_run lib s₀ _ untouched_configDir ops)
  generalize GuardedRun.run (step lib) s₀ ops = s at hok hrecurse hhosts hdir ⊢
  obtain ⟨m₀, m, hthen, hconfigure, hrecurse', hhosts'⟩ := hcarried.accepted
  obtain rfl := start_arg hstart hthen
  have hplace : ∀ m₁, parse (declared build) argv true = .ok m₁ → configName s.arg = configName m₁ :=
    fun m₁ hlax => hdir.trans (hcarried.place _ m₁ hthen hlax)
  obtain ⟨m', hreload, hframe, -⟩ := preParseAll_spec r.before (r.files (configName s.arg)) s.arg
  have hreread := reread_value hcarried hplace hconfigure hreload
  have hvalue : ∀ var, m'.params var = m.params var → value m' var = value m var := fun var h =>
    congrArg (fun val : Option Octets => val.getD []) h
  have hkept : ∀ var, Untouched var → value m' var = value s.arg var := fun var h =>
    congrArg (fun val : Option Octets => val.getD []) (hframe var h.1)
  -- the map depends on the parameters that are read again, and on two that the start left as they were
  have hsame : parseAuthAndForwards lib r.files (value m') =
      parseAuthAndForwards lib r.filesAtStart (value m) := by
    rw [hcarried.sees]
    have hexport := hvalue exportEtcHosts (hreread (exportEtcHosts, ascii "off") (by decide))
    refine parseAuthAndForwards_congr lib r.filesAtStart ?_ fun hmust => ?_
    · simp only [forall_mem_cons]
      refine ⟨hvalue _ (hreread (authZones, []) (by decide)),
        hvalue _ (hreread (forwardZones, []) (by decide)), ?_,
        hvalue _ (hreread (forwardZonesFile, []) (by decide)), hexport,
        hvalue _ (hreread (serveRFC1918, []) (by decide)), fun _ h => nomatch h⟩
      rw [hkept _ untouched_forwardZonesRecurse, hrecurse, hrecurse']
    · rw [hexport] at hmust
      rw [hkept _ untouched_etcHostsFile, hhosts, hhosts' hmust]
  unfold reloadAuthAndForwards at hok ⊢
  rw [hreload] at hok ⊢
  dsimp only at hok ⊢
  cases hparse : parseAuthAndForwards lib r.files (value m') with
  | error e =>
    rw [hparse] at hok
    cases hok
  | ok newDomainMap =>
    refine ⟨⟨m, newDomainMap⟩, ?_, rfl⟩
    unfold start
    rw [hconfigure]
    dsimp only
    rw [← hsame, hparse]

end Restart

/-! ### Two reloads -/

section Examples

def exampleBuild : Build := ⟨ascii "/etc/powerdns", ascii "/var/run", ascii "3.3"⟩

/-- An octet in decimal digits. -/
def octetOf (s : Octets) : Option UInt8 :=
  if s ≠ [] ∧ s.all isDigit = true ∧ readDigits 0 s < 256 then some (UInt8.ofNat (readDigits 0 s)) else none

/-- A library for IPv4 addresses with four octets. -/
def exampleLibrary : Library :=
  { namemap := []
    snprintf := fun _ _ => []
    comboAddress := fun s port =>
      match (s.splitOn dot).mapM octetOf with
      | some [a, b, c, d] => some ⟨[a, b, c, d], port⟩
      | _ => none
    lexicalCast := fun s =>
      if s ≠ [] ∧ s.all isDigit = true ∧ readDigits 0 s < 65536 then some (UInt16.ofNat (readDigits 0 s)) else none
    stored := some
    turns := 0 }

/-- The one file is `recursor.conf`. -/
def confFile (text : String) : Files :=
  fun fname => if fname = ascii "/etc/powerdns/recursor.conf" then some (ascii text) else none

/-- The recursor that starts with a configuration. -/
def startedWith (text : String) : Option Recursor := (start exampleBuild exampleLibrary [] (confFile text)).toOption

/-- A reload behind a change of the configuration. -/
def reloadOf (text : String) : Reload := ⟨confFile text, confFile text, 0⟩

def recurseConf : String := "serve-rfc1918=off\nforward-zones-recurse=example.net=192.0.2.2\n"

def forwardConf : String :=
  "# two zones\n\nserve-rfc1918=off\nforward-zones=example.org=192.0.2.1\nforward-zones-recurse=example.net=192.0.2.2\n"

/-- What `toOption` says. -/
theorem start_of_startedWith {text : String} {s : Recursor} (h : startedWith text = some s) :
    start exampleBuild exampleLibrary [] (confFile text) = .ok s := by
  unfold startedWith at h
  cases hstart : start exampleBuild exampleLibrary [] (confFile text) with
  | error e =>
    rw [hstart] at h
    cases h
  | ok s' =>
    rw [hstart] at h
    exact congrArg _ (some.inj h)

/-- A value that a start reads. -/
theorem value_of_configure {text : String} {m : ArgvMap} {var val : Octets}
    (hm : configure exampleBuild [] (confFile text) = .ok m)
    (h : ((configure exampleBuild [] (confFile text)).toOption.map fun m => value m var) = some val) :
    value m var = val := by
  rw [hm] at h
  exact some.inj h

theorem exists_configure {text : String} (h : (configure exampleBuild [] (confFile text)).toOption.isSome = true) :
    ∃ m, configure exampleBuild [] (confFile text) = .ok m := by
  cases hm : configure exampleBuild [] (confFile text) with
  | ok m => exact ⟨m, rfl⟩
  | error e =>
    rw [hm] at h
    cases h

/-- Another zone is forwarded, and what `forward-zones-recurse` says is still there. -/
theorem carried_forwardConf : Carried exampleBuild [] (confFile recurseConf) (reloadOf forwardConf) := by
  have hdeclared : ∀ m₁, parse (declared exampleBuild) [] true = .ok m₁ →
      configName m₁ = ascii "/etc/powerdns/recursor.conf" := by
    intro m₁ hm₁
    rw [← Except.ok.inj hm₁]
    decide
  refine ⟨rfl, ?_, fun m₀ m₁ hm₀ hm₁ => ?_, fun m₁ hm₁ text htext => ?_, forall_mem_nil _⟩
  · obtain ⟨m₀, hm₀⟩ := @exists_configure recurseConf (by decide)
    obtain ⟨m, hm⟩ := @exists_configure forwardConf (by decide +kernel)
    refine ⟨m₀, m, hm₀, hm, ?_, fun _ => ?_⟩
    · rw [value_of_configure hm (show _ = some (ascii "example.net=192.0.2.2") by decide +kernel),
        value_of_configure hm₀ (show _ = some (ascii "example.net=192.0.2.2") by decide +kernel)]
    · rw [value_of_configure hm (show _ = some (ascii "/etc/hosts") by decide +kernel),
        value_of_configure hm₀ (show _ = some (ascii "/etc/hosts") by decide +kernel)]
  · rw [hdeclared m₁ hm₁, configName,
      value_of_configure hm₀ (show _ = some (ascii "/etc/powerdns") by decide)]
    decide
  · rw [hdeclared m₁ hm₁] at htext
    have hsame : text = ascii forwardConf := (some.inj htext).symm
    rw [hsame]
    decide +kernel

/-- The zones of a recursor that has been started, behind a reload. -/
def zonesBehind (then_ now : String) : Option (Bool × DomainMap) :=
  (startedWith then_).map fun s =>
    let reloaded := reloadAuthAndForwards exampleLibrary (confFile now) 0 s
    (reloaded.2, reloaded.1.domainmap)

/-- The reload of that configuration, by a recursor that has been started and told to be quiet. -/
theorem forwardConf_installed : ∃ s₀, startedWith recurseConf = some s₀ ∧
    InstallsRestart exampleBuild exampleLibrary []
      (GuardedRun.run (step exampleLibrary) s₀ [.set .quiet (ascii "yes")]) (reloadOf forwardConf) := by
  obtain ⟨s₀, hs₀⟩ := isSome_iff_exists.mp (show (startedWith recurseConf).isSome = true by decide)
  exact ⟨s₀, hs₀, (reload_eq_restart (start_of_startedWith hs₀) _ _).2 carried_forwardConf⟩

def newRecurseConf : String := "serve-rfc1918=off\nforward-zones-recurse=example.org=192.0.2.1\n"

/-- **A zone that is not forwarded**: the configuration has got a `forward-zones-recurse`, the reload says "ok",
and the domain map is still empty. -/
theorem recurse_zone_missing : ∃ s₀, startedWith "serve-rfc1918=off\n" = some s₀ ∧
    ¬ InstallsRestart exampleBuild exampleLibrary [] s₀ (reloadOf newRecurseConf) := by
  obtain ⟨s₀, hs₀⟩ :=
    isSome_iff_exists.mp (show (startedWith "serve-rfc1918=off\n").isSome = true by decide)
  refine ⟨s₀, hs₀, fun hinstalls => ?_⟩
  have hreloaded : zonesBehind "serve-rfc1918=off\n" newRecurseConf = some (true, []) := by decide
  unfold zonesBehind at hreloaded
  rw [hs₀] at hreloaded
  obtain ⟨hok, hempty⟩ := Prod.ext_iff.mp (some.inj hreloaded)
  obtain ⟨s', hs', hsame⟩ := hinstalls hok
  have hstarted : (startedWith newRecurseConf).map (fun s => s.domainmap.map Prod.fst) =
      some [ascii "example.org."] := by decide
  unfold startedWith at hstarted
  have hagain : start exampleBuild exampleLibrary [] (confFile newRecurseConf) = .ok s' := hs'
  have hmap : s'.domainmap = [] := hsame.trans hempty
  rw [hagain] at hstarted
  change some (s'.domainmap.map Prod.fst) = _ at hstarted
  rw [hmap] at hstarted
  cases hstarted

end Examples

end RecZones

end PowerDNS
