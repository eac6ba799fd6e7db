import GoSpidermonkey.Web.Dial
import GoSpidermonkey.Web.Redirect

/-!
# The policy and the requests of a fetch

`fetch` asks the policy about the initial request (`checkRequestPermission`) and hands it to the
client of `net/http`, which follows redirects by itself. A request for which the transport has an
idle connection to its scheme, host and port is sent on it; for any other the transport calls
`DialContext`, which asks the policy.

So a redirect onto an idle connection is sent without a question.
-/

namespace GoSpidermonkey.Web.Dial

open Failing List

/-! ### Requests -/

def tcp : Bytes := str "tcp"

/-- The address of a request, as the transport passes it to `DialContext`. -/
def addrOf (u : Url) : Option Addr :=
  if h : ∀ c ∈ originPort u, 48 ≤ c ∧ c ≤ 57 then some ⟨u.hostname, originPort u, h⟩ else none

/-- The port that `checkRequestPermission` asks about. -/
def checkPort (u : Url) : ℤ :=
  if atoi u.port = 0 then if u.scheme = str "https" then 443 else 80 else atoi u.port

/-- The redirect modes of `fetch`; any unknown one is `follow`. -/
inductive RedirectMode
  | follow | manual | error
deriving DecidableEq

/-- A round trip: an idle connection or none, and what the server answers. -/
structure Round where
  idle : Bool
  location : Option Url

/-- A request on the wire: whether it went out on an idle connection, and the log of the fetch. -/
structure Sent (IP : Type) where
  url : Url
  reused : Bool
  log : Log IP

section

variable {IP : Type} (net : Net IP) (cfg : Config IP) (w : World IP)

def checkRequestPermission (u : Url) : Call Err (Log IP) Unit :=
  match net.parseIP u.hostname with
  | some ip => do
    let ok ← askDial cfg tcp [] (net.ipString ip) (checkPort u)
    if ok then pure () else throw .dialDenied
  | none => do
    let ok ← askResolve cfg u.hostname
    if ok then pure () else throw .resolveDenied

/-- The transport gets a connection for a request, and whether it was an idle one. -/
def getConn (u : Url) (idle : Bool) : Call Err (Log IP) Bool :=
  if u.hostname = [] ∨ (u.scheme ≠ str "http" ∧ u.scheme ≠ str "https") then throw .badAddress
  else if idle = true ∧ (lookupPort (originPort u)).isSome = true then pure true
  else do
    let _ ← dialContext net cfg w tcp (addrOf u)
    pure false

/-- Where a redirect leads after `via` requests and this one, by `CheckRedirect`. -/
def nextUrl (mode : RedirectMode) (via : ℕ) (r : Round) : Option Url :=
  if mode = .follow ∧ via + 1 < 10 then r.location else none

/-- The requests that the client sends: `via` is the number of the requests before. -/
def clientDo (mode : RedirectMode) : List Round → ℕ → Url → Log IP → List (Sent IP)
  | [], _, _, _ => []
  | r :: rounds, via, u, log =>
    match (getConn net cfg w u r.idle).on log with
    | (.error _, _) => []
    | (.ok reused, log') =>
      ⟨u, reused, log'⟩ :: match nextUrl mode via r with
        | some next => clientDo mode rounds (via + 1) next log'
        | none => []

/-- The requests of a `fetch`. -/
def fetchSent (mode : RedirectMode) (u : Url) (rounds : List Round) : List (Sent IP) :=
  match (checkRequestPermission net cfg u).on [] with
  | (.error _, _) => []
  | (.ok _, log) => clientDo net cfg w mode rounds 0 u log

/-! ### What is approved -/

/-- What the policy is asked about: a name, or a literal address and a port. -/
inductive Subject (IP : Type)
  | name (host : Bytes)
  | address (ip : IP) (port : ℤ)
deriving DecidableEq

def Subject.approval : Subject IP → Event IP
  | .name host => .resolve host true
  | .address ip port => .dial tcp [] (net.ipString ip) port true

def subject (u : Url) : Subject IP :=
  match net.parseIP u.hostname with
  | some ip => .address ip (atoi (originPort u))
  | none => .name u.hostname

/-- What `checkRequestPermission` asks about; it takes port 0 for a missing one. -/
def checkedSubject (u : Url) : Subject IP :=
  match net.parseIP u.hostname with
  | some ip => .address ip (checkPort u)
  | none => .name u.hostname

/-- Every request was approved in its fetch before it was sent. -/
def AllApproved (sent : List (Sent IP)) : Prop :=
  ∀ x ∈ sent, (subject net x.url).approval net ∈ x.log

/-- Idle connections are used for known subjects only; what is dialed is known from then on. -/
def ReusesKnown : List (Subject IP) → List (Sent IP) → Prop
  | _, [] => True
  | known, x :: sent =>
    if x.reused then subject net x.url ∈ known ∧ ReusesKnown known sent
    else ReusesKnown (subject net x.url :: known) sent

/-- The subjects that a log shows approved. -/
def Shows (known : List (Subject IP)) (log : Log IP) : Prop :=
  ∀ s : Subject IP, s.approval net ∈ log ↔ s ∈ known

variable {net cfg w} {log : Log IP} {known : List (Subject IP)}

lemma ipString_injective : Function.Injective net.ipString := by
  intro ip ip' h
  have hparse := congrArg net.parseIP h
  rw [net.parse_string, net.parse_string] at hparse
  exact Option.some.inj hparse

lemma approval_injective : Function.Injective (Subject.approval net : Subject IP → Event IP) := by
  rintro (host | ⟨ip, port⟩) (host' | ⟨ip', port'⟩) h
  · simpa [Subject.approval] using h
  · cases h
  · cases h
  · obtain ⟨hip, rfl⟩ : net.ipString ip = net.ipString ip' ∧ port = port' := by
      simpa [Subject.approval] using h
    rw [ipString_injective hip]

lemma ask_pass {hook : Option (Log IP → Bool)} {event : Bool → Event IP} {err : Err}
    {log log' : Log IP}
    (hok : (do let ok ← ask hook event; if ok then pure () else throw err :
      Call Err (Log IP) Unit).on log = (.ok (), log')) : log' = log ++ [event true] := by
  cases hook with
  | none => simp [ask] at hok
  | some hook =>
    by_cases hyes : hook log = true
    · simp [ask, on_bind, emit, hyes] at hok
      exact hok.symm
    · simp [ask, on_bind, emit, hyes] at hok

variable {u : Url} {L : Log IP}

lemma checkRequestPermission_ok
    (hok : (checkRequestPermission net cfg u).on [] = (.ok (), log)) :
    log = [(checkedSubject net u).approval net] := by
  unfold checkRequestPermission at hok
  cases hhost : net.parseIP u.hostname with
  | some ip | none =>
    simp only [hhost, checkedSubject, Subject.approval] at hok ⊢
    exact ask_pass hok

lemma shows_check (s : Subject IP) : Shows net [s] [s.approval net] := by
  intro s'
  rw [mem_singleton, mem_singleton]
  exact approval_injective.eq_iff

/-! ### What a dialed request shows -/

/-- What `DialContext` is to reach for a request. -/
def target (u : Url) : Target := ⟨tcp, u.hostname, atoi (originPort u)⟩

lemma target_eq {a : Addr} (ha : addrOf u = some a) : a.target tcp = target u := by
  obtain ⟨h, heq⟩ := Option.dite_none_right_eq_some.mp ha
  cases heq
  rfl

lemma approval_target (u : Url) : (target u).approval net = (subject net u).approval net := by
  unfold Target.approval subject
  cases hhost : net.parseIP u.hostname <;> simp [target, hhost, Subject.approval]

lemma subject_of_allowed (hu : u.hostname ≠ []) {before : Log IP} {s : Subject IP}
    (h : Allowed net cfg (target u) before (s.approval net)) : s = subject net u := by
  cases s with
  | name host =>
    obtain ⟨-, hhost, rfl⟩ := h
    have hname : net.parseIP u.hostname = none := hhost
    simp [subject, hname, target]
  | address ip port =>
    obtain ⟨-, ip', heq, hliteral⟩ := h
    simp only [Target.dial, Event.dial.injEq] at heq
    obtain ⟨-, hpolicy, hip, rfl, -⟩ := heq
    cases hhost : net.parseIP u.hostname with
    | none =>
      rw [Target.policyHost_name (d := target u) hhost] at hpolicy
      exact absurd hpolicy.symm hu
    | some literal =>
      obtain rfl := ipString_injective hip
      obtain rfl := hliteral literal hhost
      simp [subject, hhost, target]

lemma Shows.dialed {conn : IP × ℕ} (h : Shows net known L)
    (hu : u.hostname ≠ [])
    (hok : (dialContext net cfg w tcp (addrOf u)).on L = (.ok conn, log)) :
    Shows net (subject net u :: known) log := by
  cases ha : addrOf u with
  | none =>
    rw [ha] at hok
    cases hok
  | some a =>
    rw [ha] at hok
    have hstart : Knows net cfg (a.target tcp) L [] L :=
      ⟨⟨[], (append_nil L).symm, fun before e after h => by simp at h⟩, nofun⟩
    have hconn := (dialContext_spec (w := w) a tcp).of_ok hstart (congrArg Prod.fst hok)
    rw [hok, target_eq ha] at hconn
    obtain ⟨new, rfl, hall⟩ := hconn.1.1
    have hnew := hconn.1.tail.head.mem rfl
    rw [approval_target] at hnew
    intro s
    rw [mem_append, mem_cons, h s]
    constructor
    · rintro (hs | hs)
      · exact .inr hs
      · obtain ⟨before, after, hsplit⟩ := append_of_mem hs
        exact .inl (subject_of_allowed hu (hall before _ after hsplit))
    · rintro (rfl | hs)
      · exact .inr hnew
      · exact .inl hs

/-! ### The requests of a fetch -/

lemma getConn_ok {idle reused : Bool} (h : Shows net known L)
    (hok : (getConn net cfg w u idle).on L = (.ok reused, log)) :
    if reused = true then log = L else Shows net (subject net u :: known) log := by
  unfold getConn at hok
  split_ifs at hok with hbad hidle
  · simp at hok
  · obtain ⟨rfl, rfl⟩ : true = reused ∧ L = log := by simpa using hok
    simp
  · rw [on_bind] at hok
    split at hok
    · rename_i conn log' hdial
      obtain ⟨rfl, rfl⟩ : false = reused ∧ log' = log := by simpa using hok
      exact h.dialed (fun hempty => hbad (.inl hempty)) hdial
    · simp at hok

/-- The requests of a chain are approved exactly if idle connections lead to what is known. -/
lemma clientDo_approved_iff {mode : RedirectMode} (rounds : List Round) (via : ℕ) (u : Url)
    (h : Shows net known L) :
    AllApproved net (clientDo net cfg w mode rounds via u L)
      ↔ ReusesKnown net known (clientDo net cfg w mode rounds via u L) := by
  -- what the log shows is what `ReusesKnown` has collected
  induction rounds generalizing via u L known with
  | nil => exact iff_of_true nofun trivial
  | cons r rounds ih =>
    rw [clientDo]
    split
    · exact iff_of_true nofun trivial
    · rename_i reused log hconn
      have hlog := getConn_ok h hconn
      have hih {known' : List (Subject IP)} (hshows : Shows net known' log) :
          AllApproved net (match nextUrl mode via r with
            | some next => clientDo net cfg w mode rounds (via + 1) next log
            | none => [])
          ↔ ReusesKnown net known' (match nextUrl mode via r with
            | some next => clientDo net cfg w mode rounds (via + 1) next log
            | none => []) := by
        cases nextUrl mode via r with
        | some next => exact ih _ _ hshows
        | none => exact iff_of_true nofun trivial
      rw [AllApproved, forall_mem_cons, ReusesKnown]
      cases reused with
      | true =>
        obtain rfl : log = L := by simpa using hlog
        exact and_congr (h _) (hih h)
      | false =>
        have hshows : Shows net (subject net u :: known) log := by simpa using hlog
        rw [if_neg Bool.false_ne_true, ← hih hshows]
        exact and_iff_right ((hshows _).mpr mem_cons_self)

/-- All requests were approved exactly if every request on an idle connection is for what the fetch
has asked about or dialed before. -/
theorem fetch_approved_iff (net : Net IP) (cfg : Config IP) (w : World IP) (mode : RedirectMode)
    (u : Url) (rounds : List Round) :
    AllApproved net (fetchSent net cfg w mode u rounds)
      ↔ ReusesKnown net [checkedSubject net u] (fetchSent net cfg w mode u rounds) := by
  unfold fetchSent
  split
  · exact iff_of_true nofun trivial
  · rename_i log hok
    rw [checkRequestPermission_ok hok]
    exact clientDo_approved_iff rounds 0 u (shows_check _)

instance [DecidableEq IP] (sent : List (Sent IP)) : Decidable (AllApproved net sent) :=
  inferInstanceAs (Decidable (∀ x ∈ sent, _))

instance decidableReusesKnown [DecidableEq IP] :
    ∀ known (sent : List (Sent IP)), Decidable (ReusesKnown net known sent)
  | _, [] => isTrue trivial
  | known, x :: sent =>
    have := decidableReusesKnown known sent
    have := decidableReusesKnown (subject net x.url :: known) sent
    inferInstanceAs (Decidable (if x.reused then subject net x.url ∈ known ∧
      ReusesKnown net known sent
      else ReusesKnown net (subject net x.url :: known) sent))

end

/-! ### A redirect to a host that is no longer allowed -/

def twoAddresses : Net Bool where
  parseIP s :=
    if s = str "10.0.0.1" then some false else if s = str "10.0.0.2" then some true else none
  ipString ip := if ip then str "10.0.0.2" else str "10.0.0.1"
  parse_string := by decide +kernel

/-- Only the name `a` may be resolved. -/
def onlyA : Config Bool := ⟨some fun _ host => host == str "a", some fun _ _ _ _ _ => true⟩

def oneServer : World Bool := ⟨fun _ _ => some [false], fun _ _ _ => true⟩

def pageOn (host : String) : Url := ⟨str "http", str host, [], str "/"⟩

/-- `a` redirects to `b`, to which an earlier fetch has left an idle connection. -/
theorem idle_redirect_unapproved :
    (fetchSent twoAddresses onlyA oneServer .follow (pageOn "a")
        [⟨false, some (pageOn "b")⟩, ⟨true, none⟩]).map (fun x => x.url) = [pageOn "a", pageOn "b"]
    ∧ ¬ AllApproved twoAddresses (fetchSent twoAddresses onlyA oneServer .follow (pageOn "a")
        [⟨false, some (pageOn "b")⟩, ⟨true, none⟩]) := by
  decide +kernel

/-- A redirect on the same host may use the connection of the first request. -/
theorem sameHost_redirect_approved :
    (fetchSent twoAddresses onlyA oneServer .follow (pageOn "a")
        [⟨false, some (pageOn "a")⟩, ⟨true, none⟩]).map (fun x => x.reused) = [false, true]
    ∧ AllApproved twoAddresses (fetchSent twoAddresses onlyA oneServer .follow (pageOn "a")
        [⟨false, some (pageOn "a")⟩, ⟨true, none⟩]) :=
  ⟨by decide +kernel, (fetch_approved_iff _ _ _ _ _ _).mpr (by decide +kernel)⟩

end GoSpidermonkey.Web.Dial
