import GoSpidermonkey.Ecma.Module
import GoSpidermonkey.Nodejs.CjsExports

/-!
# The text of the shim as a module

The text of a shim reads as a module if the names in it can be bound in strict code
(`parseModule_shimText`), whatever the path of the file is: what `%q` prints is a string literal.
The module binds its names, exports them and reads a few globals.
-/

open GoSpidermonkey.Ecma GoSpidermonkey.Path GoSpidermonkey.Strconv

namespace GoSpidermonkey.Nodejs.Cjs

/-! ### Quoted strings are string literals -/

/-- A text that stays inside a string literal. -/
def Inside (s : Bytes) : Prop :=
  ∀ body, (Mode.text body).scan s = some ([], .text (body ++ s))

lemma inside_nil : Inside [] := by
  intro body
  simp [Mode.scan]

variable {s : Bytes} {c : UInt8} {k : ℕ} {ts : List Token} {names : List Bytes}

lemma Inside.append {t : Bytes} (hs : Inside s) (ht : Inside t) : Inside (s ++ t) := by
  intro body
  rw [Mode.scan_append_of (hs body), ht]
  simp

lemma inside_plain (hs : ∀ c ∈ s, c ≠ 34 ∧ c ≠ ch '\\' ∧ c ≠ 10 ∧ c ≠ 13) :
    Inside s := by
  induction s with
  | nil => exact inside_nil
  | cons c s ih =>
    intro body
    obtain ⟨hquote, hbackslash, hlf, hcr⟩ := hs c (by simp)
    have hrest := ih (fun d hd => hs d (by simp [hd])) (body ++ [c])
    simp [Mode.scan, Mode.step, hquote, hbackslash, hlf, hcr, hrest]

lemma inside_wide (hs : ∀ c ∈ s, 0x80 ≤ c) : Inside s := by
  have hplain : ∀ c : UInt8, 0x80 ≤ c → c ≠ 34 ∧ c ≠ ch '\\' ∧ c ≠ 10 ∧ c ≠ 13 := by
    decide +kernel
  exact inside_plain fun c hc => hplain c (hs c hc)

lemma inside_escape (hx : c ≠ ch 'x') (hu : c ≠ ch 'u')
    (hc : ¬ ((ch '0' ≤ c ∧ c ≤ ch '9') ∨ c = 10 ∨ c = 13)) : Inside [ch '\\', c] := by
  intro body
  have hbackslash : ch '\\' ≠ 34 := by decide
  simp [Mode.scan, Mode.step, hbackslash, hx, hu, hc]

lemma isHexDigit_lowerhex (n : ℕ) : isHexDigit (lowerhex n) = true := by
  have hall : ∀ k : Fin 16, isHexDigit (lowerhex k) = true := by decide
  have hmod : lowerhex n = lowerhex (n % 16) := by simp [lowerhex]
  rw [hmod]
  exact hall ⟨n % 16, Nat.mod_lt _ (by decide)⟩

lemma isHexDigit_hexDigits {n : ℕ} (hc : c ∈ hexDigits k n) : isHexDigit c = true := by
  induction k generalizing n with
  | zero => simp [hexDigits] at hc
  | succ k ih =>
    rcases List.mem_append.mp hc with hc | hc
    · exact ih hc
    · rw [List.mem_singleton.mp hc]
      exact isHexDigit_lowerhex n

lemma inside_hexDigits (k n : ℕ) : Inside (hexDigits k n) := by
  have hplain : ∀ c : UInt8, isHexDigit c = true → c ≠ 34 ∧ c ≠ ch '\\' ∧ c ≠ 10 ∧ c ≠ 13 := by
    decide +kernel
  exact inside_plain fun c hc => hplain c (isHexDigit_hexDigits hc)

lemma scan_hex (body : Bytes) (hs : ∀ c ∈ s, isHexDigit c = true) (hne : s ≠ []) :
    (Mode.hex s.length body).scan s = some ([], .text (body ++ s)) := by
  induction s generalizing body with
  | nil => exact absurd rfl hne
  | cons c s ih =>
    have hc := hs c (by simp)
    cases s with
    | nil => simp [Mode.scan, Mode.step, hc]
    | cons d s =>
      have hrest := ih (body ++ [c]) (fun e he => hs e (by simp [he])) (by simp)
      have hstep : (Mode.hex (c :: d :: s).length body).step c
          = some ([], .hex (d :: s).length (body ++ [c])) := by
        simp [Mode.step, hc]
      rw [Mode.scan_cons, hstep, Option.bind_some, hrest]
      simp

lemma length_hexDigits (k n : ℕ) : (hexDigits k n).length = k := by
  induction k generalizing n with
  | zero => rfl
  | succ k ih => simp [hexDigits, ih]

lemma inside_hex (hk : (c = ch 'x' ∧ k = 2) ∨ (c = ch 'u' ∧ k = 4)) (n : ℕ) :
    Inside (ch '\\' :: c :: hexDigits k n) := by
  intro body
  have hbackslash : ch '\\' ≠ 34 := by decide
  have hux : ch 'u' ≠ ch 'x' := by decide
  have hdigits := scan_hex (body ++ [ch '\\'] ++ [c]) (s := hexDigits k n)
    (fun _ => isHexDigit_hexDigits)
  rw [length_hexDigits] at hdigits
  have hne : hexDigits k n ≠ [] := by
    rw [← List.length_pos_iff, length_hexDigits]
    omega
  rcases hk with ⟨rfl, rfl⟩ | ⟨rfl, rfl⟩ <;>
    simpa [Mode.scan, Mode.step, hbackslash, hux] using hdigits hne

lemma decodeRune_bytes {b : UInt8} {r : ℕ} {bytes : Bytes}
    (h : decodeRune (b :: s) = some (r, bytes)) :
    (bytes = [b] ∧ r = b.toNat ∧ b < 0x80) ∨ (bytes ≠ [] ∧ ∀ c ∈ bytes, 0x80 ≤ c) := by
  have hcont {c : UInt8} (hc : isCont c = true) : 0x80 ≤ c := by
    simp only [isCont, Bool.and_eq_true, decide_eq_true_eq] at hc
    exact hc.1
  rw [decodeRune.eq_def] at h
  simp only at h
  split at h
  case isTrue hb =>
    simp only [Option.some.injEq, Prod.mk.injEq] at h
    exact .inl ⟨h.2.symm, h.1.symm, hb⟩
  case isFalse hb =>
    refine .inr ?_
    repeat' split at h
    all_goals simp only [Option.some.injEq, Prod.mk.injEq, reduceCtorEq] at h
    all_goals
      obtain ⟨-, rfl⟩ := h
      simp_all [utf8Two, utf8Three, utf8Four]

lemma inside_escape_of_unprintable (r : ℕ) : Inside (escape r) := by
  unfold escape
  split
  case h_1 c hc =>
    unfold letterEscape at hc
    split_ifs at hc <;> cases hc
    all_goals exact inside_escape (by decide) (by decide) (by decide)
  case h_2 =>
    split_ifs
    · exact inside_hex (.inl ⟨rfl, rfl⟩) r
    · exact inside_hex (.inr ⟨rfl, rfl⟩) r
    · exact (inside_escape (c := ch 'U') (by decide) (by decide) (by decide)).append
        (inside_hexDigits 8 r)

lemma inside_escapedRune (isPrint : ℕ → Bool) {b : UInt8} {r : ℕ} {bytes : Bytes}
    (h : decodeRune (b :: s) = some (r, bytes)) : Inside (escapedRune isPrint r bytes) := by
  unfold escapedRune
  split_ifs with hquote hprint
  · -- a quote or a backslash
    rcases decodeRune_bytes h with ⟨rfl, hr, -⟩ | ⟨hne, hwide⟩
    · have hb : b = 34 ∨ b = 92 := by
        rw [hr] at hquote
        exact hquote.imp UInt8.toNat_inj.mp UInt8.toNat_inj.mp
      rcases hb with rfl | rfl <;> exact inside_escape (by decide) (by decide) (by decide)
    · obtain ⟨c, rest, rfl⟩ := List.exists_cons_of_ne_nil hne
      have hc : ∀ c : UInt8, 0x80 ≤ c → c ≠ ch 'x' ∧ c ≠ ch 'u'
          ∧ ¬ ((ch '0' ≤ c ∧ c ≤ ch '9') ∨ c = 10 ∨ c = 13) := by
        decide +kernel
      obtain ⟨hx, hu, hdigit⟩ := hc c (hwide c (by simp))
      exact (inside_escape hx hu hdigit).append (inside_wide fun d hd => hwide d (by simp [hd]))
  · -- a character that is printed as it is
    rcases decodeRune_bytes h with ⟨rfl, rfl, hb⟩ | ⟨-, hwide⟩
    · have hplain : ∀ b : UInt8, b < 0x80 → ¬ (b.toNat = 34 ∨ b.toNat = 92) →
          (0x20 ≤ b.toNat && b.toNat ≤ 0x7e) = true →
          b ≠ 34 ∧ b ≠ ch '\\' ∧ b ≠ 10 ∧ b ≠ 13 := by
        decide +kernel
      have hlt : b.toNat < 0x80 := UInt8.lt_iff_toNat_lt.mp hb
      rw [printable, if_pos hlt] at hprint
      refine inside_plain fun c hc => ?_
      rw [List.mem_singleton.mp hc]
      exact hplain b hb hquote hprint
    · exact inside_wide hwide
  · exact inside_escape_of_unprintable r

lemma inside_quotedFrom (isPrint : ℕ → Bool) (skip : ℕ) (s : Bytes) :
    Inside (quotedFrom isPrint skip s) := by
  induction s generalizing skip with
  | nil => exact inside_nil
  | cons b s ih =>
    cases skip with
    | succ skip => exact ih skip
    | zero =>
      refine Inside.append ?_ (ih _)
      unfold quotedHead
      split
      case h_1 r bytes h => exact inside_escapedRune isPrint h
      case h_2 => exact inside_hex (.inl ⟨rfl, rfl⟩) _

/-! ### The tokens of the shim -/

/-- A text that consists of whole tokens. -/
def Reads (s : Bytes) (ts : List Token) : Prop := Mode.between.scan s = some (ts, .between)

instance (s : Bytes) (ts : List Token) : Decidable (Reads s ts) :=
  inferInstanceAs (Decidable (_ = _))

lemma Reads.append {s' : Bytes} {ts' : List Token} (h : Reads s ts) (h' : Reads s' ts') :
    Reads (s ++ s') (ts ++ ts') := by
  unfold Reads at *
  rw [Mode.scan_append_of h, h']
  rfl

lemma Reads.name {n : Bytes} (hn : isIdentifierName n = true) (h : Reads s ts)
    (hs : s.head?.map isIdentPart = some false) : Reads (n ++ s) (.name n :: ts) := by
  unfold Reads at *
  cases s with
  | nil => simp at hs
  | cons c s =>
    rw [Mode.scan_append_of (Mode.scan_name hn),
      Mode.scan_word_end n (by simpa using hs), h]
    rfl

lemma reads_quote (isPrint : ℕ → Bool) (s : Bytes) :
    Reads (quote isPrint s) [.text (quotedFrom isPrint 0 s)] := by
  have hinside := inside_quotedFrom isPrint 0 s []
  have hquote : Mode.between.scan [ch '"'] = some ([], .text []) := by decide
  have hclose (body : Bytes) : (Mode.text body).scan [ch '"'] = some ([.text body], .between) := by
    have h34 : ch '"' = 34 := by decide
    simp [Mode.scan, Mode.step, h34]
  unfold Reads quote
  rw [← List.singleton_append, List.append_assoc, Mode.scan_append_of hquote,
    Mode.scan_append_of hinside, hclose]
  rfl

def headTokens (body : Bytes) : List Token :=
  [.name (str "const"), .name (str "__cjs_default__"), .punct .assign, .name (str "globalThis"),
    .punct .dot, .name (str "__node_require_path"), .punct .lparen, .text body, .punct .rparen,
    .punct .semicolon, .name (str "export"), .name (str "default"), .name (str "__cjs_default__"),
    .punct .semicolon]

/-- The tokens of the declaration of `__cjs_ns__`. -/
def nsTokens : List Token :=
  [.name (str "const"), .name (str "__cjs_ns__"), .punct .assign, .punct .lparen,
    .name (str "__cjs_default__"), .punct .same, .name (str "null"), .punct .or,
    .name (str "__cjs_default__"), .punct .same, .name (str "undefined"), .punct .rparen,
    .punct .question, .punct .lbrace, .punct .rbrace, .punct .colon, .name (str "Object"),
    .punct .lparen, .name (str "__cjs_default__"), .punct .rparen, .punct .semicolon]

def nameTokens (n body : Bytes) : List Token :=
  [.name (str "let"), .name n, .punct .semicolon, .name (str "try"), .punct .lbrace, .name n,
    .punct .assign, .name (str "__cjs_ns__"), .punct .lbracket, .text body, .punct .rbracket,
    .punct .semicolon, .punct .rbrace, .name (str "catch"), .punct .lbrace, .punct .rbrace,
    .name (str "export"), .punct .lbrace, .name n, .punct .rbrace, .punct .semicolon]

variable (isPrint : ℕ → Bool)

lemma reads_head (p : Bytes) :
    Reads (str "const __cjs_default__ = globalThis.__node_require_path(" ++ quote isPrint p
      ++ str ");\nexport default __cjs_default__;\n") (headTokens (quotedFrom isPrint 0 p)) := by
  have hbefore : Reads (str "const __cjs_default__ = globalThis.__node_require_path(")
      ((headTokens []).take 7) := by
    decide +kernel
  have hafter : Reads (str ");\nexport default __cjs_default__;\n") ((headTokens []).drop 8) := by
    decide +kernel
  exact (hbefore.append (reads_quote isPrint p)).append hafter

lemma reads_ns :
    Reads (str "const __cjs_ns__ = (__cjs_default__ === null || __cjs_default__ === undefined)"
    ++ str " ? \x7b\x7d : Object(__cjs_default__);\n") nsTokens := by
  decide +kernel

lemma reads_nameShim {n : Bytes} (hn : isIdentifierName n = true) :
    Reads (nameShim isPrint n) (nameTokens n (quotedFrom isPrint 0 n)) := by
  have hlet : Reads (str "let ") [.name (str "let")] := by decide
  have htry : Reads (str "; try \x7b ")
      [.punct .semicolon, .name (str "try"), .punct .lbrace] := by
    decide
  have hns : Reads (str " = __cjs_ns__[")
      [.punct .assign, .name (str "__cjs_ns__"), .punct .lbracket] := by
    decide +kernel
  have hcatch : Reads (str "]; \x7d catch \x7b\x7d\nexport \x7b ")
      [.punct .rbracket, .punct .semicolon, .punct .rbrace, .name (str "catch"), .punct .lbrace,
        .punct .rbrace, .name (str "export"), .punct .lbrace] := by
    decide +kernel
  have hend : Reads (str " \x7d;\n") [.punct .rbrace, .punct .semicolon] := by decide
  have hread := ((((hlet.append (htry.name hn (by decide))).append
    (hns.name hn (by decide))).append (reads_quote isPrint n)).append hcatch).append
      (hend.name hn (by decide))
  simpa [nameShim, nameTokens] using hread

lemma reads_names (hnames : ∀ n ∈ names, isIdentifierName n = true) :
    Reads (names.flatMap (nameShim isPrint))
      (names.flatMap fun n => nameTokens n (quotedFrom isPrint 0 n)) := by
  induction names with
  | nil => exact rfl
  | cons n names ih =>
    exact (reads_nameShim isPrint (hnames n (by simp))).append
      (ih fun m hm => hnames m (by simp [hm]))

def shimTokens (p : Bytes) (names : List Bytes) : List Token :=
  headTokens (quotedFrom isPrint 0 p)
    ++ if names = [] then []
      else nsTokens ++ names.flatMap fun n => nameTokens n (quotedFrom isPrint 0 n)

lemma lex_shimText (p : Bytes)
    (hnames : ∀ n ∈ names, isIdentifierName n = true) :
    lex (shimText isPrint p names) = some (shimTokens isPrint p names) := by
  have hread : Reads (shimText isPrint p names) (shimTokens isPrint p names) := by
    refine (reads_head isPrint p).append ?_
    split
    · exact rfl
    · exact reads_ns.append (reads_names isPrint hnames)
  rw [lex, hread, Option.bind_some]
  simp [Mode.finish]

/-! ### The module of the shim -/

/-- `globalThis.__node_require_path(...)`. -/
def requireCall (body : Bytes) : Expr :=
  .call (.member (.ident (str "globalThis")) (str "__node_require_path")) (.text body)

def nsExpr : Expr :=
  let default := .ident (str "__cjs_default__")
  .cond (.or (.same default .null) (.same default (.ident (str "undefined")))) .object
    (.call (.ident (str "Object")) default)

/-- `n = __cjs_ns__[...]`. -/
def readName (n body : Bytes) : Expr :=
  .assign n (.index (.ident (str "__cjs_ns__")) (.text body))

def nameItems (n : Bytes) : List Item :=
  [.declare n, .attempt (readName n (quotedFrom isPrint 0 n)), .exportName n]

def shimModule (p : Bytes) (names : List Bytes) : Module where
  items := .const (str "__cjs_default__") (requireCall (quotedFrom isPrint 0 p))
    :: .exportDefault (.ident (str "__cjs_default__"))
    :: if names = [] then []
      else .const (str "__cjs_ns__") nsExpr :: names.flatMap (nameItems isPrint)

lemma items_cons {n : ℕ} {ts' : List Token} {i : Item} {is : List Item}
    (hi : item ts = some (i, ts')) (his : items n ts' = some is) :
    items (n + 1) ts = some (i :: is) := by
  cases ts with
  | nil => simp [item] at hi
  | cons t ts => simp [items, hi, his]

lemma item_default (body : Bytes) (ts : List Token) :
    item (headTokens body ++ ts)
      = some (.const (str "__cjs_default__") (requireCall body),
        (headTokens body).drop 10 ++ ts) := by
  rfl

lemma item_exportDefault (body : Bytes) (ts : List Token) :
    item ((headTokens body).drop 10 ++ ts)
      = some (.exportDefault (.ident (str "__cjs_default__")), ts) := by
  rfl

lemma item_ns (ts : List Token) :
    item (nsTokens ++ ts) = some (.const (str "__cjs_ns__") nsExpr, ts) := by
  rfl

section

variable {n : Bytes} (hn : isBindingIdentifier n = true)

include hn

lemma item_declare (body : Bytes) (ts : List Token) :
    item (nameTokens n body ++ ts) = some (.declare n, (nameTokens n body).drop 3 ++ ts) := by
  simp [nameTokens, item, hn, expect]

lemma item_attempt (body : Bytes) (ts : List Token) :
    item ((nameTokens n body).drop 3 ++ ts)
      = some (.attempt (readName n body), (nameTokens n body).drop 16 ++ ts) := by
  have hindex (ts : List Token) : expression 7 (.name (str "__cjs_ns__") :: .punct .lbracket
      :: .text body :: .punct .rbracket :: .punct .semicolon :: ts)
      = some (.index (.ident (str "__cjs_ns__")) (.text body), .punct .semicolon :: ts) := by
    rfl
  have hassign (ts : List Token) : expression nesting (.name n :: .punct .assign
      :: .name (str "__cjs_ns__") :: .punct .lbracket :: .text body :: .punct .rbracket
      :: .punct .semicolon :: ts)
      = some (readName n body, .punct .semicolon :: ts) := by
    change assignment (expression 7) _ = _
    simp [assignment, hn, hindex, readName]
  simp [nameTokens, item, attempt, terminated, hassign, expect]

lemma item_exportName (body : Bytes) (ts : List Token) :
    item ((nameTokens n body).drop 16 ++ ts) = some (.exportName n, ts) := by
  have htry : str "export" ≠ str "try" := by decide
  simp [nameTokens, item, hn, htry]

lemma items_name (body : Bytes) {k : ℕ} {ts : List Token} {is : List Item}
    (his : items k ts = some is) :
    items (k + 3) (nameTokens n body ++ ts)
      = some (.declare n :: .attempt (readName n body) :: .exportName n :: is) :=
  items_cons (item_declare hn body ts)
    (items_cons (item_attempt hn body ts) (items_cons (item_exportName hn body ts) his))

end

lemma items_names (hnames : ∀ n ∈ names, isBindingIdentifier n = true)
    (hk : 3 * names.length ≤ k) :
    items k (names.flatMap fun n => nameTokens n (quotedFrom isPrint 0 n))
      = some (names.flatMap (nameItems isPrint)) := by
  induction names generalizing k with
  | nil => cases k <;> rfl
  | cons n names ih =>
    obtain ⟨k, rfl⟩ : ∃ j, k = j + 3 := ⟨k - 3, by simp at hk; omega⟩
    have hrest := ih (fun m hm => hnames m (by simp [hm])) (k := k) (by simp at hk; omega)
    exact items_name (hnames n (by simp)) _ hrest

lemma parseModule_shimText (p : Bytes)
    (hnames : ∀ n ∈ names, isBindingIdentifier n = true) :
    parseModule (shimText isPrint p names) = some (shimModule isPrint p names) := by
  have hidents : ∀ n ∈ names, isIdentifierName n = true := by
    intro n hn
    have hbinding := hnames n hn
    simp only [isBindingIdentifier, isIdentifier, Bool.and_eq_true] at hbinding
    exact hbinding.1.1
  have hitems : ∀ k, 3 + 3 * names.length ≤ k →
      items k (shimTokens isPrint p names) = some (shimModule isPrint p names).items := by
    intro k hk
    obtain ⟨k, rfl⟩ : ∃ j, k = j + 3 := ⟨k - 3, by omega⟩
    refine items_cons (item_default _ _) (items_cons (item_exportDefault _ _) ?_)
    split
    · rfl
    · exact items_cons (item_ns _) (items_names isPrint hnames (by omega))
  have hlength : 3 + 3 * names.length ≤ (shimTokens isPrint p names).length := by
    unfold shimTokens
    split
    case isTrue hnil => simp [hnil, headTokens]
    case isFalse =>
      simp only [List.length_append, List.length_flatMap, headTokens, nsTokens, nameTokens,
        List.length_cons, List.length_nil, List.map_const', List.sum_replicate, smul_eq_mul]
      omega
  rw [parseModule, lex_shimText isPrint p hidents, Option.bind_some, hitems _ hlength]
  rfl

/-! ### What the module binds, exports and reads -/

variable {p : Bytes} {names : List Bytes}

lemma lets_shimModule : (shimModule isPrint p names).lets = names := by
  by_cases hnil : names = []
  · simp [Module.lets, shimModule, hnil]
  · simp [Module.lets, shimModule, hnil, nameItems, List.filterMap_flatMap]

lemma bindings_shimModule : (shimModule isPrint p names).bindings
    = str "__cjs_default__" :: if names = [] then [] else str "__cjs_ns__" :: names := by
  by_cases hnil : names = []
  · simp [Module.bindings, shimModule, hnil]
  · simp [Module.bindings, shimModule, hnil, nameItems, List.filterMap_flatMap]

lemma exportedBindings_shimModule : (shimModule isPrint p names).exportedBindings = names := by
  by_cases hnil : names = []
  · simp [Module.exportedBindings, shimModule, hnil]
  · simp [Module.exportedBindings, shimModule, hnil, nameItems, List.filterMap_flatMap]

lemma exportedNames_shimModule :
    (shimModule isPrint p names).exportedNames = str "default" :: names := by
  by_cases hnil : names = []
  · simp [Module.exportedNames, shimModule, hnil]
  · simp [Module.exportedNames, shimModule, hnil, nameItems, List.filterMap_flatMap]

def shimReads : List Bytes :=
  [str "globalThis", str "Object", str "undefined", str "__cjs_default__", str "__cjs_ns__"]

lemma mem_reads_shimModule (hne : names ≠ []) (x : Bytes) :
    x ∈ (shimModule isPrint p names).reads ↔ x ∈ shimReads := by
  have hitems : (names.flatMap (nameItems isPrint)).flatMap Item.reads
      = names.flatMap fun _ => [str "__cjs_ns__"] := by
    rw [List.flatMap_assoc]
    rfl
  have hns : x ∈ names.flatMap (fun _ => [str "__cjs_ns__"]) ↔ x = str "__cjs_ns__" := by
    obtain ⟨n, hn⟩ := List.exists_mem_of_ne_nil names hne
    rw [List.mem_flatMap]
    exact ⟨fun ⟨_, _, hx⟩ => List.mem_singleton.mp hx, fun hx => ⟨n, hn, List.mem_singleton.mpr hx⟩⟩
  simp only [Module.reads, shimModule, hne, if_false, List.flatMap_cons, hitems, Item.reads,
    Expr.reads, requireCall, nsExpr, shimReads, List.mem_append, List.mem_cons, List.not_mem_nil,
      or_false, hns]
  generalize (x = str "globalThis") = a, (x = str "Object") = b, (x = str "undefined") = c,
    (x = str "__cjs_default__") = d, (x = str "__cjs_ns__") = e
  tauto

end GoSpidermonkey.Nodejs.Cjs
