import GoSpidermonkey.Ecma.Uri

/-!
# URL paths

The part of the guest's `URL` class that a path goes through: the components, the percent encoding
of the path set, the dot segments, the setter of `pathname` and the serialisation `href`. A string
is a list of characters, for there are no unpaired surrogates in what comes here.
-/

namespace GoSpidermonkey.Web

open GoSpidermonkey.Ecma List

/-- The components a `URL` object stores. -/
structure URL where
  protocol : List Char
  username : List Char := []
  password : List Char := []
  hostname : List Char := []
  port : List Char := []
  pathname : List Char
  search : List Char := []
  hash : List Char := []

/-- The schemes in `SPECIAL`. -/
def specialSchemes : List (List Char) :=
  ["http:".toList, "https:".toList, "ws:".toList, "wss:".toList, "ftp:".toList, "file:".toList]

/-! ### Encoding -/

def querySet : List Char := " \"#<>".toList

def pathSet : List Char := querySet ++ "?^`\x7b\x7d".toList

/-- Whether `encodeComponent` leaves a character as it is. -/
def literal (set : List Char) (c : Char) : Bool :=
  decide (0x1f < c.toNat) && decide (c.toNat < 0x7f) && !set.contains c

def encodeComponent (s set : List Char) : List Char :=
  s.flatMap fun c => if literal set c then [c] else escapeChar c

/-! ### Dot segments -/

/-- `replace(/%2e/gi, ".")`. -/
def undot : List Char → List Char
  | a :: b :: c :: s =>
    if a = '%' ∧ b = '2' ∧ (c = 'e' ∨ c = 'E') then '.' :: undot s else a :: undot (b :: c :: s)
  | s => s

/-- The loop of `normalizePath`: what is out so far, and the segments to come. -/
def dotSegments : List (List Char) → List (List Char) → List (List Char)
  | out, [] => out
  | out, seg :: segs =>
    let dots := undot seg
    let atEnd := if segs = [] then [[]] else []
    if dots = ['.'] then dotSegments (out ++ atEnd) segs
    else if dots = ['.', '.'] then dotSegments (out.dropLast ++ atEnd) segs
    else dotSegments (out ++ [seg]) segs

def normalizePath (path : List Char) : List Char :=
  if path.head? = some '/' then
    '/' :: ['/'].intercalate (dotSegments [] ((path.splitOn '/').drop 1))
  else path

/-- The setter of `pathname`. -/
def URL.setPathname (u : URL) (v : List Char) : URL :=
  let v := v.filter (· ∉ ['\t', '\n', '\r'])
  let v := if u.protocol ∈ specialSchemes then v.map fun c => if c = '\\' then '/' else c else v
  let v := encodeComponent v pathSet
  { u with pathname := normalizePath (if v.head? = some '/' then v else '/' :: v) }

/-! ### Serialisation -/

def URL.host (u : URL) : List Char := u.hostname ++ if u.port = [] then [] else ':' :: u.port

def URL.href (u : URL) : List Char :=
  let authority :=
    if u.hostname ≠ [] ∨ u.protocol ∈ specialSchemes then
      let credentials :=
        if u.username ≠ [] ∨ u.password ≠ [] then
          u.username ++ (if u.password = [] then [] else ':' :: u.password) ++ ['@']
        else []
      "//".toList ++ credentials ++ u.host
    else []
  u.protocol ++ authority ++ u.pathname ++ u.search ++ u.hash

/-! ### Normal paths -/

lemma undot_cons {c : Char} (h : c ≠ '%') (s : List Char) : undot (c :: s) = c :: undot s := by
  match s with
  | [] | [_] => rfl
  | a :: b :: s => rw [undot, if_neg fun h' => h h'.1]

/-- A percent sign that is not followed by `2e` stays. -/
lemma undot_percent {a b : Char} (h : ¬ (a = '2' ∧ (b = 'e' ∨ b = 'E'))) (s : List Char) :
    undot ('%' :: a :: b :: s) = '%' :: undot (a :: b :: s) := by
  rw [undot, if_neg fun h' => h h'.2]

lemma dotSegments_eq (out : List (List Char)) {segs : List (List Char)}
    (h : ∀ s ∈ segs, undot s ≠ ['.'] ∧ undot s ≠ ['.', '.']) :
    dotSegments out segs = out ++ segs := by
  induction segs generalizing out with
  | nil => simp [dotSegments]
  | cons seg segs ih =>
    rw [dotSegments, if_neg (h seg (.head _)).1, if_neg (h seg (.head _)).2,
      ih _ fun s hs => h s (.tail _ hs), append_assoc]
    rfl

lemma normalizePath_eq {segs : List (List Char)} (hslash : ∀ s ∈ segs, '/' ∉ s)
    (hdots : ∀ s ∈ segs, undot s ≠ ['.'] ∧ undot s ≠ ['.', '.']) :
    normalizePath ('/' :: ['/'].intercalate segs) = '/' :: ['/'].intercalate segs := by
  have hsplit : (('/' :: ['/'].intercalate segs).splitOn '/').drop 1 =
      if segs = [] then [[]] else segs := by
    have hcons : '/' :: ['/'].intercalate segs = [] ++ '/' :: ['/'].intercalate segs := rfl
    rw [hcons, splitOn_append_cons_self, splitOn_nil, singleton_append,
      drop_succ_cons, drop_zero]
    split_ifs with hnil
    · rw [hnil]
      rfl
    · exact splitOn_intercalate '/' hslash hnil
  rw [normalizePath, if_pos (head?_cons ..), hsplit]
  split_ifs with hnil
  · rw [hnil]
    rfl
  · rw [dotSegments_eq [] hdots, nil_append]

example : normalizePath "/a/../b".toList = "/b".toList := by decide +kernel

end GoSpidermonkey.Web
