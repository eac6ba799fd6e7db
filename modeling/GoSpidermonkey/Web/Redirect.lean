import GoSpidermonkey.Go.Bytes

/-!
# Redirects and credentials

A `fetch` in mode `"follow"` hands its redirects to the client of `net/http`, which builds the
header of each next request from the *initial* one and then asks `CheckRedirect`. The client itself
leaves out `Authorization` and `Cookie` from the first hop on that leaves the initial domain;
`CheckRedirect` deletes them when the hop crosses an origin, which it judges by the request *before*
the hop.

The two rules together miss a hop that stays on the origin it comes from, when that origin is not
the initial one and the chain never left the initial domain: such a hop sends the credentials again.
`credentialsStripped_iff` says that nothing else leaks them.
-/

namespace GoSpidermonkey.Web

open List

/-- The parts of a URL that decide where a request goes. -/
structure Url where
  scheme : Bytes
  hostname : Bytes
  port : Bytes
  path : Bytes
  deriving DecidableEq

/-- An `http.Header`: values by canonical name. -/
abbrev Header := Finmap fun _ : Bytes => List Bytes

structure Request where
  url : Url
  header : Header

def originPort (u : Url) : Bytes :=
  if u.port ≠ [] then u.port else if u.scheme = str "https" then str "443" else str "80"

def sameOrigin (a b : Url) : Bool :=
  a.scheme == b.scheme && a.hostname == b.hostname && originPort a == originPort b

/-- `req.Header.Del("Authorization"); req.Header.Del("Cookie")`. -/
def Header.delCredentials (h : Header) : Header :=
  (h.erase (str "Authorization")).erase (str "Cookie")

inductive RedirectError where
  | tooManyRedirects

/-- `CheckRedirect` in mode `"follow"`: the next request with its header as it is sent. -/
def checkRedirect (req : Request) (via : List Request) : Except RedirectError Request :=
  if 10 ≤ via.length then .error .tooManyRedirects
  else
    match via.getLast? with
    | none => .ok req
    | some prev =>
      if sameOrigin prev.url req.url then .ok req
      else .ok { req with header := req.header.delCredentials }

/-! ### The client -/

/-- `isDomainOrSubdomain` of `net/http`. -/
def isDomainOrSubdomain (sub parent : Bytes) : Bool :=
  sub == parent || (!sub.contains (ch ':') && !sub.contains (ch '%') &&
    (ch '.' :: parent).isSuffixOf sub)

def clientHeader (init : Request) (strip : Bool) : Header :=
  if strip then init.header.delCredentials else init.header

/-- The redirects of a chain; `strip` says that a hop left the initial domain. -/
def follow (init : Request) (via : List Request) (strip : Bool) : List Url → List Request
  | [] => via
  | u :: us =>
    let strip' := strip || !isDomainOrSubdomain u.hostname init.url.hostname
    match checkRedirect ⟨u, clientHeader init strip'⟩ via with
    | .error _ => via
    | .ok req => follow init (via ++ [req]) strip' us

/-- All requests of a `fetch` whose servers answer with the given redirects. -/
def sent (init : Request) (targets : List Url) : List Request := follow init [init] false targets

/-! ### Headers -/

def Header.NoCredentials (h : Header) : Prop := str "Authorization" ∉ h ∧ str "Cookie" ∉ h

lemma Header.noCredentials_del (h : Header) : h.delCredentials.NoCredentials := by
  constructor <;> simp [delCredentials, Finmap.mem_erase]

variable (init : Request)

/-- Every request to an origin other than the initial one is without credentials. -/
def CredentialsStripped (reqs : List Request) : Prop :=
  ∀ r ∈ reqs, ¬ sameOrigin init.url r.url → r.header.NoCredentials

/-! ### The requests of a chain -/

def leaves (u : Url) : Bool := !isDomainOrSubdomain u.hostname init.url.hostname

/-- The request of a hop from `prev` to `u`. -/
def hop (prev : Url) (strip : Bool) (u : Url) : Request :=
  if sameOrigin prev u then ⟨u, clientHeader init strip⟩
  else ⟨u, (clientHeader init strip).delCredentials⟩

@[simp] lemma url_hop (prev : Url) (strip : Bool) (u : Url) : (hop init prev strip u).url = u := by
  unfold hop
  split <;> rfl

lemma hop_noCredentials_iff (prev : Url) (strip : Bool) (u : Url) :
    (hop init prev strip u).header.NoCredentials ↔
      init.header.NoCredentials ∨ ¬ sameOrigin prev u ∨ strip := by
  unfold hop clientHeader
  by_cases hs : sameOrigin prev u <;> cases strip <;>
    simp [hs, Header.noCredentials_del]

lemma checkRedirect_eq {init : Request} {via : List Request} {prev u : Url} {strip : Bool}
    (hprev : (via.map Request.url).getLast? = some prev) (hlen : via.length < 10) :
    checkRedirect ⟨u, clientHeader init strip⟩ via = .ok (hop init prev strip u) := by
  rw [getLast?_map, Option.map_eq_some_iff] at hprev
  obtain ⟨r, hr, rfl⟩ := hprev
  simp only [checkRedirect, Nat.not_le.mpr hlen, if_false, hr, hop]
  split <;> rfl

/-- The requests sent are those before, and one for each target that comes before the tenth. -/
lemma mem_follow {init r : Request} {via : List Request} {strip : Bool} {us : List Url}
    (hvia : via ≠ []) :
    r ∈ follow init via strip us ↔ r ∈ via ∨ ∃ a u b prev, us = a ++ u :: b ∧
      via.length + a.length < 10 ∧ (via.map Request.url ++ a).getLast? = some prev ∧
      r = hop init prev (strip || (a ++ [u]).any (leaves init)) u := by
  induction us generalizing via strip with
  | nil => simp [follow]
  | cons u us ih =>
    obtain ⟨prev, hprev⟩ : ∃ prev, (via.map Request.url).getLast? = some prev :=
      Option.isSome_iff_exists.mp (by simpa using hvia)
    by_cases hlen : via.length < 10
    · rw [follow, checkRedirect_eq hprev hlen, ih (by simp)]
      constructor
      · rintro (h | ⟨a, v, b, p, rfl, hl, hp, rfl⟩)
        · rcases mem_append.mp h with h | h
          · exact .inl h
          · refine .inr ⟨[], u, us, prev, rfl, by simpa using hlen, by simpa using hprev, ?_⟩
            simpa [leaves] using h
        · refine .inr ⟨u :: a, v, b, p, rfl, ?_, by simpa using hp, by simp [leaves, Bool.or_assoc]⟩
          simp only [length_append, length_cons, length_nil] at hl ⊢
          omega
      · rintro (h | ⟨a, v, b, p, hus, hl, hp, rfl⟩)
        · exact .inl (by simp [h])
        · cases a with
          | nil =>
            obtain ⟨rfl, rfl⟩ : u = v ∧ us = b := by simpa using hus
            obtain rfl : prev = p := by simpa [hprev] using hp
            exact .inl (by simp [leaves])
          | cons w a =>
            obtain ⟨rfl, rfl⟩ : u = w ∧ us = a ++ v :: b := by simpa using hus
            refine .inr ⟨a, v, b, p, rfl, ?_, by simpa using hp, by simp [leaves, Bool.or_assoc]⟩
            simp only [length_append, length_cons, length_nil] at hl ⊢
            omega
    · have : checkRedirect ⟨u, clientHeader init (strip || leaves init u)⟩ via
          = .error .tooManyRedirects := by
        simp [checkRedirect, Nat.not_lt.mp hlen]
      simp only [leaves] at this
      rw [follow, this]
      constructor
      · exact .inl
      · rintro (h | ⟨a, -, -, -, -, hl, -⟩)
        · exact h
        · omega

/-- The hop to `u` sends credentials to another origin. -/
def Leaks (a : List Url) (u : Url) : Prop :=
  ¬ sameOrigin init.url u ∧ (∃ prev, (init.url :: a).getLast? = some prev ∧ sameOrigin prev u) ∧
    ∀ v ∈ a ++ [u], isDomainOrSubdomain v.hostname init.url.hostname

/-- The credentials stay on the initial origin exactly when there are none, or no hop stays on
another origin of the initial domain. -/
theorem credentialsStripped_iff (init : Request) (targets : List Url) :
    CredentialsStripped init (sent init targets) ↔
      init.header.NoCredentials ∨
        ∀ a u b, targets = a ++ u :: b → a.length < 9 → ¬ Leaks init a u := by
  have hself : sameOrigin init.url init.url := by simp [sameOrigin]
  constructor
  · intro h
    by_cases hc : init.header.NoCredentials
    · exact .inl hc
    · refine .inr fun a u b hts hl ⟨hne, ⟨prev, hprev, hsame⟩, hdom⟩ => ?_
      have hmem : hop init prev (false || (a ++ [u]).any (leaves init)) u ∈ sent init targets :=
        (mem_follow (by simp)).mpr (.inr ⟨a, u, b, prev, hts, by simp; omega, hprev, rfl⟩)
      have hstay : (a ++ [u]).any (leaves init) = false := by
        rw [any_eq_false]
        intro v hv
        simp [leaves, hdom v hv]
      have := h _ hmem (by simpa using hne)
      rw [hop_noCredentials_iff, hstay] at this
      simp [hc, hsame] at this
  · intro h r hr hne
    rcases (mem_follow (by simp)).mp hr with hr | ⟨a, u, b, prev, hts, hl, hprev, rfl⟩
    · obtain rfl : r = init := by simpa using hr
      exact absurd hself hne
    · rw [url_hop] at hne
      rw [hop_noCredentials_iff]
      rcases h with h | h
      · exact .inl h
      · by_contra hnot
        simp only [not_or, Classical.not_not, Bool.false_or] at hnot
        have hl' : a.length < 9 := by
          simp only [length_singleton] at hl
          omega
        refine h a u b hts hl' ⟨hne, ⟨prev, hprev, hnot.2.1⟩, fun v hv => ?_⟩
        have hstay := hnot.2.2
        simp only [Bool.not_eq_true, any_eq_false] at hstay
        simpa [leaves] using hstay v hv

/-! ### A chain that changes only the port -/

instance (h : Header) : Decidable h.NoCredentials :=
  inferInstanceAs (Decidable (str "Authorization" ∉ h ∧ str "Cookie" ∉ h))

instance (init : Request) (reqs : List Request) : Decidable (CredentialsStripped init reqs) :=
  inferInstanceAs (Decidable (∀ r ∈ reqs, ¬ sameOrigin init.url r.url → r.header.NoCredentials))

def urlOnPort (port path : String) : Url := ⟨str "http", str "h", str port, str path⟩

/-- A request to the default port with an `Authorization` header. -/
def authorized : Request :=
  ⟨urlOnPort "" "/", (∅ : Header).insert (str "Authorization") [str "secret"]⟩

/-- From port 80 to port 8080 and from there to another page on port 8080. -/
theorem second_hop_leaks :
    ¬ CredentialsStripped authorized
      (sent authorized [urlOnPort "8080" "/a", urlOnPort "8080" "/b"]) := by
  decide +kernel

/-- The same chain ends without a leak when the second hop goes to a third port. -/
theorem third_port_stripped :
    CredentialsStripped authorized
      (sent authorized [urlOnPort "8080" "/a", urlOnPort "9090" "/b"]) := by
  refine (credentialsStripped_iff _ _).mpr (.inr fun a u b hts _ ⟨_, ⟨prev, hprev, hsame⟩, _⟩ => ?_)
  match a, hts with
  | [], hts =>
    obtain ⟨rfl, -⟩ : urlOnPort "8080" "/a" = u ∧ _ := by simpa using hts
    obtain rfl : authorized.url = prev := by simpa using hprev
    exact absurd hsame (by decide)
  | [v], hts =>
    obtain ⟨rfl, rfl, -⟩ : urlOnPort "8080" "/a" = v ∧ urlOnPort "9090" "/b" = u ∧ _ := by
      simpa using hts
    obtain rfl : urlOnPort "8080" "/a" = prev := by simpa using hprev
    exact absurd hsame (by decide)
  | _ :: _ :: _, hts => simp at hts

end GoSpidermonkey.Web
