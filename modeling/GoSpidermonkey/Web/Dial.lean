import GoSpidermonkey.Go.Bytes
import GoSpidermonkey.Lib.Failing

/-!
# Outbound connections and the policy

`Config.Resolve` and `Config.Dial` decide which names may be looked up and which addresses may be
dialed. Two functions ask them: the `DialContext` of the client behind `fetch`, which connects, and
`resolveDialAddr`, which returns the address for `node:net` to connect to.

A call leaves a log of what it asked, looked up and connected to. The hooks, the resolver and the
network answer as they like at every moment: their answers are functions of the log so far.
-/

namespace GoSpidermonkey.Web.Dial

open Failing List

/-! ### Addresses -/

/-- The addresses of the package `net`, with their texts. -/
structure Net (IP : Type) where
  parseIP : Bytes → Option IP
  ipString : IP → Bytes
  parse_string : ∀ ip, parseIP (ipString ip) = some ip

def digitsValue (s : Bytes) : ℕ := s.foldl (fun n c => n * 10 + (c.toNat - 48)) 0

/-- `port, _ := strconv.Atoi(s)` for a string of digits: the greatest `int` when it is too large. -/
def atoi (s : Bytes) : ℤ := min (digitsValue s) (2 ^ 63 - 1)

/-- The port that a dialer of `net` takes from a string of digits. -/
def lookupPort (s : Bytes) : Option ℕ :=
  if digitsValue s ≤ 65535 then some (digitsValue s) else none

/-- The address that the client passes to `DialContext`, split by `net.SplitHostPort`. -/
structure Addr where
  host : Bytes
  port : Bytes
  digits : ∀ c ∈ port, 48 ≤ c ∧ c ≤ 57

def joinHostPort (host port : Bytes) : Bytes :=
  if ch ':' ∈ host then ch '[' :: host ++ [ch ']', ch ':'] ++ port else host ++ [ch ':'] ++ port

def itoa (n : ℤ) : Bytes := str (toString n)

/-! ### The policy and the network -/

inductive Event (IP : Type)
  /-- `Config.Resolve` is asked. -/
  | resolve (host : Bytes) (ok : Bool)
  /-- `Config.Dial` is asked. -/
  | dial (network host ip : Bytes) (port : ℤ) (ok : Bool)
  | lookup (host : Bytes) (answer : Option (List IP))
  | connect (ip : IP) (port : ℕ)
deriving DecidableEq

abbrev Log (IP : Type) := List (Event IP)

/-- The hooks of `spidermonkey.Config`, each possibly `nil`. -/
structure Config (IP : Type) where
  resolve : Option (Log IP → Bytes → Bool)
  dial : Option (Log IP → Bytes → Bytes → Bytes → ℤ → Bool)

/-- The resolver and the network. -/
structure World (IP : Type) where
  lookupIP : Log IP → Bytes → Option (List IP)
  connects : Log IP → IP → ℕ → Bool

inductive Err
  | badAddress
  | resolveDenied
  | dialDenied
  | lookupFailed
  | invalidPort
  | connectFailed
  | noAddresses

section

variable {IP : Type} (net : Net IP) (cfg : Config IP) (w : World IP)

def emit (e : Event IP) : Call Err (Log IP) Unit := writes fun log => log ++ [e]

def ask (hook : Option (Log IP → Bool)) (event : Bool → Event IP) : Call Err (Log IP) Bool :=
  match hook with
  | none => pure false
  | some hook => do
    let ok ← reads hook
    emit (event ok)
    pure ok

/-- `cfg.Resolve != nil && cfg.Resolve(host)`. -/
def askResolve (host : Bytes) : Call Err (Log IP) Bool :=
  ask (cfg.resolve.map fun hook log => hook log host) (.resolve host)

/-- `cfg.Dial != nil && cfg.Dial(network, host, ip, port)`. -/
def askDial (network host ip : Bytes) (port : ℤ) : Call Err (Log IP) Bool :=
  ask (cfg.dial.map fun hook log => hook log network host ip port) (.dial network host ip port)

def lookupIP (host : Bytes) : Call Err (Log IP) (List IP) := do
  let answer ← reads fun log => w.lookupIP log host
  emit (.lookup host answer)
  orThrow answer .lookupFailed

def connect (ip : IP) (port : ℕ) : Call Err (Log IP) (IP × ℕ) := do
  let ok ← reads fun log => w.connects log ip port
  emit (.connect ip port)
  if ok then pure (ip, port) else throw .connectFailed

def connectAny (port : ℕ) : List IP → Call Err (Log IP) (IP × ℕ)
  | [] => throw .connectFailed
  | ip :: ips => do
    match ← attempt (connect w ip port) with
    | .ok conn => pure conn
    | .error _ => connectAny port ips

/-- `dialer.DialContext`, which looks a name up by itself. -/
def dialer (host port : Bytes) : Call Err (Log IP) (IP × ℕ) := do
  let port ← orThrow (lookupPort port) .invalidPort
  match net.parseIP host with
  | some ip => connect w ip port
  | none => do
    let ips ← lookupIP w host
    connectAny w port ips

/-- The loop over the answers in the `DialContext` of `newHTTPClient`. -/
def dialAnswers (network : Bytes) (a : Addr) : Err → List IP → Call Err (Log IP) (IP × ℕ)
  | lastErr, [] => throw lastErr
  | _, ip :: ips => do
    let ok ← askDial cfg network a.host (net.ipString ip) (atoi a.port)
    if ok then
      match ← attempt (dialer net w (net.ipString ip) a.port) with
      | .ok conn => pure conn
      | .error err => dialAnswers network a err ips
    else dialAnswers network a .dialDenied ips

/-- The `DialContext` of `newHTTPClient`; without an address where `SplitHostPort` fails. -/
def dialContext (network : Bytes) (addr : Option Addr) : Call Err (Log IP) (IP × ℕ) := do
  let a ← orThrow addr .badAddress
  match net.parseIP a.host with
  | some ip => do
    let ok ← askDial cfg network [] (net.ipString ip) (atoi a.port)
    if ok then dialer net w a.host a.port else throw .dialDenied
  | none => do
    let ok ← askResolve cfg a.host
    if ok then do
      let ips ← lookupIP w a.host
      dialAnswers net cfg w network a .noAddresses ips
    else throw .resolveDenied

/-- The loop over the answers in `resolveDialAddr`. -/
def resolveAnswers (network host : Bytes) (port : ℤ) : List IP → Call Err (Log IP) Bytes
  | [] => throw .dialDenied
  | ip :: ips => do
    let ok ← askDial cfg network host (net.ipString ip) port
    if ok then pure (joinHostPort (net.ipString ip) (itoa port))
    else resolveAnswers network host port ips

def resolveDialAddr (network host : Bytes) (port : ℤ) : Call Err (Log IP) Bytes :=
  match net.parseIP host with
  | some ip => do
    let ok ← askDial cfg network [] (net.ipString ip) port
    if ok then pure (joinHostPort (net.ipString ip) (itoa port)) else throw .dialDenied
  | none => do
    let ok ← askResolve cfg host
    if ok then
      if cfg.dial.isNone then throw .dialDenied
      else do
        let ips ← lookupIP w host
        resolveAnswers net cfg network host port ips
    else throw .resolveDenied

/-! ### What a log shows -/

end

/-- What a call wants to reach. -/
structure Target where
  network : Bytes
  host : Bytes
  port : ℤ

/-- What `DialContext` is to reach. -/
def Addr.target (a : Addr) (network : Bytes) : Target := ⟨network, a.host, atoi a.port⟩

section

variable {IP : Type} (net : Net IP) (cfg : Config IP) (d : Target)

/-- The name that `Config.Dial` gets, empty for a literal address. -/
def Target.policyHost : Bytes := if (net.parseIP d.host).isSome then [] else d.host

/-- `Config.Dial` is asked about an address. -/
def Target.dial (ip : IP) (ok : Bool) : Event IP :=
  .dial d.network (d.policyHost net) (net.ipString ip) d.port ok

/-- The answer by which the policy approves a target. -/
def Target.approval : Event IP :=
  match net.parseIP d.host with
  | some ip => .dial d.network [] (net.ipString ip) d.port true
  | none => .resolve d.host true

/-- What may happen in a call for a target, after some events of the same call. -/
def Allowed (before : Log IP) : Event IP → Prop
  | .resolve name _ => cfg.resolve.isSome = true ∧ net.parseIP d.host = none ∧ name = d.host
  | .dial network name text port ok => cfg.dial.isSome = true ∧
      ∃ ip, .dial network name text port ok = d.dial net ip ok ∧
        ∀ literal, net.parseIP d.host = some literal → ip = literal
  | .lookup name _ => net.parseIP d.host = none ∧ name = d.host ∧ .resolve d.host true ∈ before
  | .connect ip port => (port : ℤ) = d.port ∧ d.dial net ip true ∈ before

/-- Whatever happened in the call was allowed by what had happened before in it. -/
def Gated (L log : Log IP) : Prop :=
  ∃ new, log = L ++ new ∧
    ∀ before e after, new = before ++ e :: after → Allowed net cfg d before e

/-- An event of the call that began with the log `L`. -/
def Since (L log : Log IP) (e : Event IP) : Prop := ∃ new, log = L ++ new ∧ e ∈ new

/-- A gated call in which some events are known to have happened. -/
def Knows (L : Log IP) (known : List (Event IP)) (log : Log IP) : Prop :=
  Gated net cfg d L log ∧ ∀ e ∈ known, Since L log e

variable {net cfg d} {L log : Log IP} {known : List (Event IP)} {e : Event IP}

variable {ip : IP} {known' : List (Event IP)} {event : Bool → Event IP} {ok : Bool}
  {E : Log IP → Prop} {port : ℕ} {text : Bytes}

lemma Target.policyHost_literal (h : net.parseIP d.host = some ip) :
    d.policyHost net = [] := by
  simp [Target.policyHost, h]

lemma Target.policyHost_name (h : net.parseIP d.host = none) : d.policyHost net = d.host := by
  simp [Target.policyHost, h]

lemma Target.approval_literal (h : net.parseIP d.host = some ip) :
    d.approval net = d.dial net ip true := by
  simp [Target.approval, Target.dial, Target.policyHost_literal h, h]

lemma Target.approval_name (h : net.parseIP d.host = none) :
    d.approval net = .resolve d.host true := by
  simp [Target.approval, h]

lemma Gated.emit (h : Gated net cfg d L log)
    (he : ∀ new, log = L ++ new → Allowed net cfg d new e) : Gated net cfg d L (log ++ [e]) := by
  obtain ⟨new, rfl, hall⟩ := h
  refine ⟨new ++ [e], append_assoc _ _ _, ?_⟩
  intro before e' after hsplit
  rcases eq_nil_or_concat after with rfl | ⟨after', x, rfl⟩
  · obtain ⟨rfl, hlast⟩ := append_inj' hsplit rfl
    obtain rfl := singleton_inj.mp hlast
    exact he new rfl
  · rw [concat_eq_append, ← cons_append, ← append_assoc] at hsplit
    exact hall before e' after' (append_inj' hsplit rfl).1

lemma Since.append (h : Since L log e) (more : Log IP) : Since L (log ++ more) e := by
  obtain ⟨new, rfl, hmem⟩ := h
  exact ⟨new ++ more, append_assoc _ _ _, mem_append_left _ hmem⟩

lemma Since.mem (h : Since L log e) {new : Log IP} (hnew : log = L ++ new) : e ∈ new := by
  obtain ⟨new', hlog, hmem⟩ := h
  exact append_cancel_left (hlog.symm.trans hnew) ▸ hmem

lemma Knows.mono (h : Knows net cfg d L known log)
    (hsub : known' ⊆ known) : Knows net cfg d L known' log :=
  ⟨h.1, fun e he => h.2 e (hsub he)⟩

lemma Knows.tail (h : Knows net cfg d L (e :: known) log) : Knows net cfg d L known log :=
  h.mono (subset_cons_self e known)

lemma Knows.head (h : Knows net cfg d L (e :: known) log) : Since L log e :=
  h.2 e mem_cons_self

lemma Knows.emit (h : Knows net cfg d L known log)
    (he : ∀ new, log = L ++ new → Allowed net cfg d new e) :
    Knows net cfg d L (e :: known) (log ++ [e]) := by
  refine ⟨h.1.emit he, fun e' he' => ?_⟩
  rcases mem_cons.mp he' with rfl | he'
  · obtain ⟨new, rfl, -⟩ := h.1
    exact ⟨new ++ [e'], append_assoc _ _ _, mem_append_right _ (mem_singleton_self _)⟩
  · exact (h.2 e' he').append [e]

lemma Knows.mem (h : Knows net cfg d [] known log) (he : e ∈ known) : e ∈ log :=
  (h.2 e he).mem rfl

/-! ### The calls -/

variable (net cfg d L) in
/-- The answer of a hook: there is no hook, or it was asked. -/
def Answered (known : List (Event IP)) (nil : Prop) (event : Bool → Event IP) (ok : Bool)
    (log : Log IP) : Prop :=
  (ok = false ∧ nil ∧ Knows net cfg d L known log) ∨ Knows net cfg d L (event ok :: known) log

lemma Answered.yes {nil : Prop}
    (h : Answered net cfg d L known nil event true log) :
    Knows net cfg d L (event true :: known) log :=
  h.resolve_left fun hno => Bool.noConfusion hno.1

lemma Answered.knows {nil : Prop}
    (h : Answered net cfg d L known nil event ok log) : Knows net cfg d L known log :=
  h.elim (fun hno => hno.2.2) Knows.tail

lemma ask_spec {hook : Option (Log IP → Bool)}
    (hevent : hook.isSome = true → ∀ ok before, Allowed net cfg d before (event ok)) :
    Triple (Knows net cfg d L known) (ask hook event)
      (Answered net cfg d L known (hook = none) event) E := by
  cases hook with
  | none => exact .pure fun log h => .inl ⟨rfl, rfl, h⟩
  | some hook =>
    refine .bind (.reads (Q := fun _ => Knows net cfg d L known) fun log h => h) fun ok => ?_
    refine .bind (.writes (Q := fun _ => Knows net cfg d L (event ok :: known))
      fun log h => h.emit fun before _ => hevent rfl ok before) fun _ => ?_
    exact .pure fun log h => .inr h

lemma askResolve_spec (hhost : net.parseIP d.host = none) :
    Triple (Knows net cfg d L known) (askResolve cfg d.host)
      (Answered net cfg d L known (cfg.resolve = none) (.resolve d.host)) E := by
  have hspec : Triple (Knows net cfg d L known) (askResolve cfg d.host)
      (Answered net cfg d L known ((cfg.resolve.map fun hook log => hook log d.host) = none)
        (.resolve d.host)) E :=
    ask_spec fun hsome ok before => ⟨by simpa using hsome, hhost, rfl⟩
  rwa [Option.map_eq_none_iff] at hspec

lemma askDial_spec (ip : IP) {name : Bytes} (hname : name = d.policyHost net)
    (hip : ∀ literal, net.parseIP d.host = some literal → ip = literal) :
    Triple (Knows net cfg d L known) (askDial cfg d.network name (net.ipString ip) d.port)
      (Answered net cfg d L known (cfg.dial = none) (d.dial net ip)) E := by
  subst hname
  have hspec : Triple (Knows net cfg d L known)
      (askDial cfg d.network (d.policyHost net) (net.ipString ip) d.port)
      (Answered net cfg d L known ((cfg.dial.map fun hook log =>
        hook log d.network (d.policyHost net) (net.ipString ip) d.port) = none)
          (d.dial net ip)) E :=
    ask_spec fun hsome ok before => ⟨by simpa using hsome, ip, rfl, hip⟩
  rwa [Option.map_eq_none_iff] at hspec

variable {w : World IP}

lemma lookupIP_spec (hhost : net.parseIP d.host = none)
    (hresolved : .resolve d.host true ∈ known) :
    Triple (Knows net cfg d L known) (lookupIP w d.host)
      (fun ips => Knows net cfg d L (.lookup d.host (some ips) :: known))
      (Knows net cfg d L (.lookup d.host none :: known)) := by
  refine .bind (.reads (Q := fun _ => Knows net cfg d L known) fun log h => h) fun answer => ?_
  refine .bind (.writes (Q := fun _ => Knows net cfg d L (.lookup d.host answer :: known)) ?_)
    fun _ => ?_
  · intro log h
    exact h.emit fun new hnew => ⟨hhost, rfl, (h.2 _ hresolved).mem hnew⟩
  · cases answer with
    | none => exact .throw fun log h => h
    | some ips => exact .pure fun log h => h

lemma connect_spec (hport : (port : ℤ) = d.port)
    (hdial : d.dial net ip true ∈ known) :
    Triple (Knows net cfg d L known) (connect w ip port)
      (fun conn => Knows net cfg d L (.connect conn.1 conn.2 :: known))
      (Knows net cfg d L known) := by
  refine .bind (.reads (Q := fun _ => Knows net cfg d L known) fun log h => h) fun ok => ?_
  refine .bind (.writes (Q := fun _ => Knows net cfg d L (.connect ip port :: known)) ?_)
    fun _ => ?_
  · intro log h
    exact h.emit fun new hnew => ⟨hport, (h.2 _ hdial).mem hnew⟩
  · exact .ite (fun _ => .pure fun log h => h) fun _ => .throw fun log h => h.tail

lemma atoi_eq {s : Bytes} (h : lookupPort s = some port) : (port : ℤ) = atoi s := by
  obtain ⟨hle, rfl⟩ : digitsValue s ≤ 65535 ∧ digitsValue s = port := by
    simpa [lookupPort, Option.ite_none_right_eq_some] using h
  rw [atoi, min_eq_left]
  omega

variable (net cfg d L) in
/-- A connection to what a call wants to reach, through a port that exists. -/
def Connected (portStr : Bytes) (known : List (Event IP)) (conn : IP × ℕ) (log : Log IP) : Prop :=
  Knows net cfg d L (.connect conn.1 conn.2 :: known) log ∧ (lookupPort portStr).isSome = true

lemma Connected.mono {portStr : Bytes} {conn : IP × ℕ}
    (h : Connected net cfg d L portStr known conn log) (hsub : known' ⊆ known) :
    Connected net cfg d L portStr known' conn log :=
  ⟨h.1.mono (cons_subset_cons _ hsub), h.2⟩

lemma dialer_spec {portStr : Bytes} (htext : net.parseIP text = some ip)
    (hport : d.port = atoi portStr) (hdial : d.dial net ip true ∈ known) :
    Triple (Knows net cfg d L known) (dialer net w text portStr)
      (Connected net cfg d L portStr known) (Knows net cfg d L known) := by
  refine .bind (.orThrow fun log h => h) fun port => .assuming fun hp => ?_
  simp only [htext]
  refine (connect_spec ((atoi_eq hp).trans hport.symm) hdial).post fun _ log h => ⟨h, ?_⟩
  rw [hp]
  rfl

lemma dialAnswers_spec {a : Addr} {network : Bytes} (hhost : net.parseIP a.host = none)
    (lastErr : Err) (ips : List IP) :
    Triple (Knows net cfg (a.target network) L known)
      (dialAnswers net cfg w network a lastErr ips)
      (Connected net cfg (a.target network) L a.port known)
      (Knows net cfg (a.target network) L known) := by
  have hpolicy : a.host = (a.target network).policyHost net :=
    (Target.policyHost_name (d := a.target network) hhost).symm
  -- the known events stay, and what an answer adds to them is forgotten
  induction ips generalizing lastErr with
  | nil => exact .throw fun log h => h
  | cons ip ips ih =>
    refine .bind (askDial_spec (d := a.target network) ip hpolicy
      fun literal hliteral => ?_) fun ok => .ite (fun hok => ?_) fun _ => ?_
    · exact absurd (hhost.symm.trans hliteral) (by simp)
    · subst hok
      have hdialer : Triple (Knows net cfg (a.target network) L
            ((a.target network).dial net ip true :: known)) (dialer net w (net.ipString ip) a.port)
          (Connected net cfg (a.target network) L a.port
            ((a.target network).dial net ip true :: known)) (Knows net cfg (a.target network) L
            ((a.target network).dial net ip true :: known)) :=
        dialer_spec (net.parse_string ip) rfl mem_cons_self
      refine .bind (hdialer.attempt.weaken (fun log h => h.yes) (fun _ log h => h)
        fun _ => False.elim) fun r => ?_
      cases r with
      | ok conn => exact .pure fun log h => h.mono (subset_cons_self _ _)
      | error err => exact (ih err).pre fun log h => h.tail
    · exact (ih .dialDenied).pre fun log h => h.knows

/-- What `DialContext` does, and what it takes to connect. -/
lemma dialContext_spec (a : Addr) (network : Bytes) :
    Triple (Knows net cfg (a.target network) L known)
      (dialContext net cfg w network (some a))
      (Connected net cfg (a.target network) L a.port ((a.target network).approval net :: known))
      (Knows net cfg (a.target network) L known) := by
  refine .bind (Q := fun b log => Knows net cfg (a.target network) L known log ∧ b = a)
    (.pure fun log h => ⟨h, rfl⟩) fun b => .assuming fun hb => ?_
  subst hb
  cases hhost : net.parseIP b.host with
  | some ip =>
    have hpolicy := Target.policyHost_literal (d := b.target network) hhost
    rw [Target.approval_literal (d := b.target network) hhost]
    refine .bind (askDial_spec (d := b.target network) ip hpolicy.symm
      fun literal hliteral => Option.some.inj (hhost.symm.trans hliteral)) fun ok =>
        .ite (fun hok => ?_) fun _ => .throw fun log h => h.knows
    subst hok
    exact (dialer_spec hhost rfl mem_cons_self).weaken (fun log h => h.yes) (fun _ log h => h)
      fun log h => h.tail
  | none =>
    rw [Target.approval_name (d := b.target network) hhost]
    refine .bind (askResolve_spec (d := b.target network) hhost) fun ok =>
      .ite (fun hok => ?_) fun _ => .throw fun log h => h.knows
    subst hok
    refine .bind ((lookupIP_spec (d := b.target network) hhost mem_cons_self).weaken
      (fun log h => h.yes) (fun _ log h => h) fun log h => h.tail.tail) fun ips => ?_
    exact (dialAnswers_spec hhost .noAddresses ips).weaken (fun log h => h.tail)
      (fun _ log h => h) fun log h => h.tail

/-! ### Addresses for `node:net` -/

/-- Why `resolveDialAddr` may fail, as its log shows it. -/
inductive Fails (net : Net IP) (cfg : Config IP) (d : Target) (log : Log IP) : Prop
  /-- There is no `Dial`. -/
  | noDial (h : cfg.dial = none)
  | literal (ip : IP) (hip : net.parseIP d.host = some ip) (h : d.dial net ip false ∈ log)
  /-- There is no `Resolve`. -/
  | noResolve (hhost : net.parseIP d.host = none) (h : cfg.resolve = none)
  | name (h : .resolve d.host false ∈ log)
  | lookup (h : .lookup d.host none ∈ log)
  | answers (ips : List IP) (hips : .lookup d.host (some ips) ∈ log)
    (h : ∀ ip ∈ ips, d.dial net ip false ∈ log)

variable (net cfg d L) in
/-- The text of an approved address. -/
def Approved (known : List (Event IP)) (text : Bytes) (log : Log IP) : Prop :=
  ∃ ip, text = joinHostPort (net.ipString ip) (itoa d.port) ∧
    Knows net cfg d L (d.dial net ip true :: known) log

lemma Approved.mono
    (h : Approved net cfg d L known text log) (hsub : known' ⊆ known) :
    Approved net cfg d L known' text log := by
  obtain ⟨ip, htext, hknows⟩ := h
  exact ⟨ip, htext, hknows.mono (cons_subset_cons _ hsub)⟩

lemma resolveAnswers_spec (hhost : net.parseIP d.host = none) (ips : List IP) :
    Triple (Knows net cfg d L known) (resolveAnswers net cfg d.network d.host d.port ips)
      (Approved net cfg d L known)
      (fun log => (cfg.dial = none ∧ Knows net cfg d L known log) ∨
        Knows net cfg d L (ips.map (d.dial net · false) ++ known) log) := by
  induction ips generalizing known with
  | nil => exact .throw fun log h => .inr h
  | cons ip ips ih =>
    refine .bind (askDial_spec ip (Target.policyHost_name hhost).symm
      fun literal hliteral => absurd (hhost.symm.trans hliteral) (by simp)) fun ok =>
        .ite (fun hok => ?_) fun hok => ?_
    · subst hok
      exact .pure fun log h => ⟨ip, rfl, h.yes⟩
    · obtain rfl := Bool.eq_false_iff.mpr hok
      -- a denial is one more known event, unless there is no hook
      rintro log (⟨-, hnil, h⟩ | h)
      · refine ((@ih known).fails ?_) log h
        rintro log (h | h)
        · exact .inl h
        · exact .inl ⟨hnil, h.mono (subset_append_right _ _)⟩
      · refine ((@ih (d.dial net ip false :: known)).weaken (fun log h => h)
          (fun _ log h => h.mono (subset_cons_self _ _)) ?_) log h
        rintro log (h | h)
        · exact .inl ⟨h.1, h.2.tail⟩
        · refine .inr (h.mono ?_)
          intro e he
          simp only [map_cons, cons_append, mem_cons, mem_append] at he ⊢
          tauto

lemma resolveDialAddr_spec (d : Target) :
    Triple (Knows net cfg d [] []) (resolveDialAddr net cfg w d.network d.host d.port)
      (Approved net cfg d [] [d.approval net])
      (fun log => Gated net cfg d [] log ∧ Fails net cfg d log) := by
  unfold resolveDialAddr
  cases hhost : net.parseIP d.host with
  | some ip =>
    refine .bind (askDial_spec ip (Target.policyHost_literal hhost).symm
      fun literal hliteral => Option.some.inj (hhost.symm.trans hliteral)) fun ok =>
        .ite (fun hok => ?_) fun hok => .throw ?_
    · subst hok
      refine .pure fun log h => ⟨ip, rfl, h.yes.mono ?_⟩
      simp [Target.approval_literal hhost]
    · obtain rfl := Bool.eq_false_iff.mpr hok
      rintro log (⟨-, hnil, h⟩ | h)
      · exact ⟨h.1, .noDial hnil⟩
      · exact ⟨h.1, .literal ip hhost (h.mem mem_cons_self)⟩
  | none =>
    refine .bind (askResolve_spec hhost) fun ok => .ite (fun hok => ?_) fun hok => .throw ?_
    · subst hok
      refine .ite (fun hnil => .throw fun log h => ?_) fun hsome => ?_
      · exact ⟨h.knows.1, .noDial (Option.isNone_iff_eq_none.mp hnil)⟩
      · refine .bind ((lookupIP_spec hhost mem_cons_self).weaken (fun log h => h.yes)
          (fun _ log h => h) fun log h => ⟨h.1, .lookup (h.mem mem_cons_self)⟩) fun ips => ?_
        refine (resolveAnswers_spec hhost ips).weaken (fun log h => h) (fun _ log h => h.mono ?_) ?_
        · simp [Target.approval_name hhost]
        rintro log (⟨hnil, -⟩ | h)
        · exact absurd (Option.isNone_iff_eq_none.mpr hnil) hsome
        · refine ⟨h.1, .answers ips (h.mem (by simp)) fun ip hip => h.mem ?_⟩
          exact mem_append_left _ (mem_map_of_mem hip)
    · obtain rfl := Bool.eq_false_iff.mpr hok
      rintro log (⟨-, hnil, h⟩ | h)
      · exact ⟨h.1, .noResolve hhost hnil⟩
      · exact ⟨h.1, .name (h.mem mem_cons_self)⟩

/-! ### Every connection is under the policy -/

lemma Gated.allowed (h : Gated net cfg d [] log) (he : e ∈ log) :
    ∃ before, before ⊆ log ∧ Allowed net cfg d before e := by
  obtain ⟨new, rfl, hall⟩ := h
  obtain ⟨before, after, hsplit⟩ := append_of_mem he
  refine ⟨before, ?_, hall before e after hsplit⟩
  rw [hsplit]
  exact subset_append_left _ _

lemma Gated.dial_isSome (h : Gated net cfg d [] log)
    (he : d.dial net ip ok ∈ log) : cfg.dial.isSome = true := by
  obtain ⟨before, -, hallowed⟩ := h.allowed he
  exact hallowed.1

lemma Gated.resolve_isSome (h : Gated net cfg d [] log) {host : Bytes}
    (he : .resolve host ok ∈ log) : cfg.resolve.isSome = true := by
  obtain ⟨before, -, hallowed⟩ := h.allowed he
  exact hallowed.1

lemma knows_nil : Knows net cfg d [] [] [] :=
  ⟨⟨[], rfl, fun before e after h => by simp at h⟩, nofun⟩

variable (net cfg w)

/-- The answer and the log of `DialContext`. -/
def dialed (network : Bytes) (a : Addr) : Except Err (IP × ℕ) × Log IP :=
  (dialContext net cfg w network (some a)).on []

/-- The answer and the log of `resolveDialAddr`. -/
def resolved (d : Target) : Except Err Bytes × Log IP :=
  (resolveDialAddr net cfg w d.network d.host d.port).on []

lemma dialed_gated (network : Bytes) (a : Addr) :
    Gated net cfg (a.target network) [] (dialed net cfg w network a).2 :=
  ((dialContext_spec a network).weaken (fun _ h => h) (fun _ _ h => h.1.1)
    fun _ h => h.1).final knows_nil

lemma resolved_gated (d : Target) : Gated net cfg d [] (resolved net cfg w d).2 :=
  ((resolveDialAddr_spec d).weaken (fun _ h => h) (fun _ _ ⟨_, _, h⟩ => h.1)
    fun _ h => h.1).final knows_nil

variable {net cfg w}

lemma dialed_ok {network : Bytes} {a : Addr} {conn : IP × ℕ}
    (hok : (dialed net cfg w network a).1 = .ok conn) :
    Connected net cfg (a.target network) [] a.port [(a.target network).approval net] conn
      (dialed net cfg w network a).2 :=
  (dialContext_spec a network).of_ok knows_nil hok

lemma resolved_ok {d : Target} (hok : (resolved net cfg w d).1 = .ok text) :
    Approved net cfg d [] [d.approval net] text (resolved net cfg w d).2 :=
  (resolveDialAddr_spec d).of_ok knows_nil hok

lemma resolved_error {d : Target} {err : Err} (herr : (resolved net cfg w d).1 = .error err) :
    Fails net cfg d (resolved net cfg w d).2 :=
  ((resolveDialAddr_spec d).of_error knows_nil herr).2

/-- A connection takes an approval of `Config.Dial`. -/
lemma Gated.connect (h : Gated net cfg d [] log) (he : .connect ip port ∈ log) :
    (port : ℤ) = d.port ∧ d.dial net ip true ∈ log := by
  obtain ⟨before, hsub, hport, hdial⟩ := h.allowed he
  exact ⟨hport, hsub hdial⟩

/-- A lookup takes an approval of `Config.Resolve`. -/
lemma Gated.lookup (h : Gated net cfg d [] log) {name : Bytes} {answer : Option (List IP)}
    (he : .lookup name answer ∈ log) : name = d.host ∧ .resolve d.host true ∈ log := by
  obtain ⟨before, hsub, -, hname, hresolve⟩ := h.allowed he
  exact ⟨hname, hsub hresolve⟩

/-- Whatever happens is allowed by what the hooks have answered in the same call, and nothing
happens without them. -/
theorem outbound_gated (net : Net IP) (cfg : Config IP) (w : World IP) :
    (∀ network a, Gated net cfg (a.target network) [] (dialed net cfg w network a).2 ∧
      ∀ conn, (dialed net cfg w network a).1 = .ok conn →
        .connect conn.1 conn.2 ∈ (dialed net cfg w network a).2)
    ∧ (∀ d, Gated net cfg d [] (resolved net cfg w d).2
      ∧ (∀ text, (resolved net cfg w d).1 = .ok text →
        ∃ ip, text = joinHostPort (net.ipString ip) (itoa d.port)
          ∧ d.dial net ip true ∈ (resolved net cfg w d).2)
      ∧ ∀ err, (resolved net cfg w d).1 = .error err → Fails net cfg d (resolved net cfg w d).2)
    ∧ (cfg.dial = none →
      (∀ network a, (dialed net cfg w network a).1.isOk = false
        ∧ ∀ ip port, .connect ip port ∉ (dialed net cfg w network a).2)
      ∧ ∀ d, (resolved net cfg w d).1.isOk = false)
    ∧ (cfg.resolve = none →
      (∀ network a, net.parseIP a.host = none → (dialed net cfg w network a).1.isOk = false
        ∧ ∀ name answer, .lookup name answer ∉ (dialed net cfg w network a).2)
      ∧ ∀ d, net.parseIP d.host = none → (resolved net cfg w d).1.isOk = false
        ∧ ∀ name answer, .lookup name answer ∉ (resolved net cfg w d).2) := by
  have hconn {network : Bytes} {a : Addr} {conn : IP × ℕ}
      (hok : (dialed net cfg w network a).1 = .ok conn) :
      .connect conn.1 conn.2 ∈ (dialed net cfg w network a).2 :=
    (dialed_ok hok).1.mem mem_cons_self
  have hnoDial (hnil : cfg.dial = none) {d : Target} {log : Log IP} (h : Gated net cfg d [] log)
      {ip : IP} (hmem : d.dial net ip true ∈ log) : False := by
    have hsome := h.dial_isSome hmem
    rw [hnil] at hsome
    cases hsome
  have hnoResolve (hnil : cfg.resolve = none) {d : Target} {log : Log IP}
      (h : Gated net cfg d [] log) {host : Bytes} (hmem : .resolve host true ∈ log) : False := by
    have hsome := h.resolve_isSome hmem
    rw [hnil] at hsome
    cases hsome
  refine ⟨fun network a => ⟨dialed_gated net cfg w network a, fun conn => hconn⟩, ?_, ?_, ?_⟩
  · intro d
    refine ⟨resolved_gated net cfg w d, fun text hok => ?_, fun err => resolved_error⟩
    obtain ⟨ip, htext, hknows⟩ := resolved_ok hok
    exact ⟨ip, htext, hknows.mem mem_cons_self⟩
  · intro hnil
    refine ⟨fun network a => ?_, fun d => ?_⟩
    · have hgated := dialed_gated net cfg w network a
      have hnone ip port : .connect ip port ∉ (dialed net cfg w network a).2 :=
        fun hmem => hnoDial hnil hgated (hgated.connect hmem).2
      refine ⟨?_, hnone⟩
      cases hr : (dialed net cfg w network a).1 with
      | error err => rfl
      | ok conn => exact absurd (hconn hr) (hnone conn.1 conn.2)
    · cases hr : (resolved net cfg w d).1 with
      | error err => rfl
      | ok text =>
        obtain ⟨ip, -, hknows⟩ := resolved_ok hr
        exact (hnoDial hnil hknows.1 (hknows.mem mem_cons_self)).elim
  · intro hnil
    refine ⟨fun network a hhost => ⟨?_, fun name answer hmem => ?_⟩,
      fun d hhost => ⟨?_, fun name answer hmem => ?_⟩⟩
    · cases hr : (dialed net cfg w network a).1 with
      | error err => rfl
      | ok conn =>
        have hknows := (dialed_ok hr).1
        rw [Target.approval_name (d := a.target network) hhost] at hknows
        exact (hnoResolve hnil hknows.1 (hknows.tail.mem mem_cons_self)).elim
    · have hgated := dialed_gated net cfg w network a
      exact hnoResolve hnil hgated (hgated.lookup hmem).2
    · cases hr : (resolved net cfg w d).1 with
      | error err => rfl
      | ok text =>
        obtain ⟨ip, -, hknows⟩ := resolved_ok hr
        rw [Target.approval_name hhost] at hknows
        exact (hnoResolve hnil hknows.1 (hknows.tail.mem mem_cons_self)).elim
    · have hgated := resolved_gated net cfg w d
      exact hnoResolve hnil hgated (hgated.lookup hmem).2

end

end GoSpidermonkey.Web.Dial
