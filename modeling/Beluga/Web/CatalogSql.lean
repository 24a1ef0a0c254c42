import Beluga.Text.SqlTokens
import Mathlib.Data.List.Infix

/-! # A sample query for a catalog table

`views/catalogSql.ts`: a query of the first ten columns, written with names from the catalog
that are quoted where they are not plain.

* `quoteIdentifier_text`: a name is written as one token, which reads as that name;
* `sample_lex`: the tokens of the query, with white space between them;
* `sample_query`: they are one statement of the fixed form with the names in their places.
-/

namespace Web

structure CatalogColumn where
  name : String
  type : String

structure CatalogTable where
  catalog : String
  schema : String
  table : String
  columns : List CatalogColumn

/-- Trino reserved keywords, and `user` as a defensive identifier guard. -/
def TRINO_RESERVED_WORDS : List String :=
  ["alter", "and", "as", "auto", "between", "by", "case", "cast", "constraint", "create",
    "cross", "cube", "current_catalog", "current_date", "current_path", "current_role",
    "current_schema", "current_time", "current_timestamp", "current_user", "deallocate",
    "delete", "describe", "distinct", "drop", "else", "end", "escape", "except", "exists",
    "extract", "false", "for", "from", "full", "group", "grouping", "having", "in", "inner",
    "insert", "intersect", "into", "is", "join", "json_array", "json_exists", "json_object",
    "json_query", "json_table", "json_value", "left", "like", "listagg", "localtime",
    "localtimestamp", "natural", "normalize", "not", "null", "on", "or", "order", "outer",
    "overlaps", "prepare", "recursive", "right", "rollup", "select", "skip", "table", "then",
    "trim", "true", "uescape", "union", "unnest", "using", "user", "values", "when", "where",
    "with"]

def lowerStart (c : Char) : Bool := ('a' ≤ c && c ≤ 'z') || c = '_'

def lowerRest (c : Char) : Bool := lowerStart c || ('0' ≤ c && c ≤ '9')

/-- `/^[a-z_][a-z0-9_]*$/`. -/
def plainName (identifier : String) : Bool :=
  match identifier.toList with
  | [] => false
  | c :: cs => lowerStart c && cs.all lowerRest

def quoteIdentifier (identifier : String) : String :=
  if plainName identifier ∧ identifier ∉ TRINO_RESERVED_WORDS then identifier
  else
    "\"" ++ String.ofList (identifier.toList.flatMap fun c => if c = '"' then ['"', '"'] else [c])
      ++ "\""

def getCatalogTableName (table : CatalogTable) : String :=
  ".".intercalate ([table.catalog, table.schema, table.table].map quoteIdentifier)

/-- The text without regard to the case of ASCII letters. -/
def folded (text : String) : List Char := text.toList.map Char.toLower

/-- `/timestamp|time/i`. -/
def temporalType (type : String) : Bool :=
  "timestamp".toList <:+: folded type ∨ "time".toList <:+: folded type

/-- `/(?:_at|_time|timestamp)$/i`. -/
def temporalName (name : String) : Bool :=
  "_at".toList <:+ folded name ∨ "_time".toList <:+ folded name ∨
    "timestamp".toList <:+ folded name

/-- The column that the sample is ordered by. -/
def timestampColumn (table : CatalogTable) : Option CatalogColumn :=
  table.columns.find? fun column => temporalType column.type || temporalName column.name

def buildCatalogSampleSql (table : CatalogTable) : String :=
  let columns := (table.columns.take 10).map fun column => "  " ++ quoteIdentifier column.name
  let orderBy := match timestampColumn table with
    | some column => "\nORDER BY " ++ quoteIdentifier column.name ++ " DESC"
    | none => ""
  "SELECT\n" ++ ",\n".intercalate columns ++ "\nFROM " ++ getCatalogTableName table ++ orderBy ++
    "\nLIMIT 20;"

open Text.Sql

/-! ## The statement -/

def trinoSpace (c : Char) : Bool := c ∈ [' ', '\t', '\n', '\r']

/-- Words are not told apart by case. -/
def isKeyword (keyword : String) : Token → Bool
  | .word w => w.map Char.toLower = keyword.toList
  | _ => false

/-- The name of an identifier: what is between quotes, or a word that is not reserved. -/
def identifierOf : Token → Option String
  | .word w =>
      let name := String.ofList (w.map Char.toLower)
      if name ∈ TRINO_RESERVED_WORDS then none else some name
  | .quoted body => some (String.ofList (undoubled body))
  | _ => none

structure SampleQuery where
  columns : List String
  catalog : String
  schema : String
  table : String
  orderBy : Option String
  deriving DecidableEq

/-- Identifiers with commas between them. -/
def readColumns : List Token → Option (List String × List Token)
  | t :: .symbol [','] :: rest => do
      let name ← identifierOf t
      let (names, rest) ← readColumns rest
      return (name :: names, rest)
  | t :: rest => do return ([← identifierOf t], rest)
  | [] => none

/-- `ORDER BY name DESC`, if it is there, and `LIMIT 20;` at the end. -/
def readTail : List Token → Option (Option String)
  | [limit, .number count, .symbol [';']] =>
      if isKeyword "limit" limit ∧ count = "20".toList then some none else none
  | [order, by', name, desc, limit, .number count, .symbol [';']] =>
      if isKeyword "order" order ∧ isKeyword "by" by' ∧ isKeyword "desc" desc ∧
          isKeyword "limit" limit ∧ count = "20".toList then (identifierOf name).map some
      else none
  | _ => none

/-- `SELECT columns FROM catalog.schema.table`, and the tail. -/
def readSample : List Token → Option SampleQuery
  | select :: toks => do
      let (columns, rest) ← if isKeyword "select" select then readColumns toks else none
      match rest with
      | source :: catalog :: .symbol ['.'] :: schema :: .symbol ['.'] :: table :: tail => do
          let catalog ← if isKeyword "from" source then identifierOf catalog else none
          let schema ← identifierOf schema
          let table ← identifierOf table
          let orderBy ← readTail tail
          return { columns, catalog, schema, table, orderBy }
      | _ => none
  | [] => none

/-! ## Names -/

def isBare (name : String) : Bool := plainName name && decide (name ∉ TRINO_RESERVED_WORDS)

/-- The token of a name. -/
def nameToken (name : String) : Token :=
  if isBare name then .word name.toList else .quoted (doubled name.toList)

theorem quoteIdentifier_text (name : String) :
    (quoteIdentifier name).toList = (nameToken name).text := by
  unfold quoteIdentifier nameToken isBare
  by_cases hbare : plainName name ∧ name ∉ TRINO_RESERVED_WORDS
  · rw [if_pos hbare, if_pos (by simpa using hbare)]
    rfl
  · rw [if_neg hbare, if_neg (by simpa using hbare)]
    simp only [String.toList_append, String.toList_ofList]
    rfl

theorem plainName_iff {name : String} : plainName name = true ↔
    ∃ c cs, name.toList = c :: cs ∧ lowerStart c = true ∧ ∀ d ∈ cs, lowerRest d = true := by
  unfold plainName
  cases name.toList with
  | nil => simp
  | cons c cs => simp [List.all_eq_true]

theorem lower_bounds {c : Char} (h : lowerRest c = true) :
    c = '_' ∨ (97 ≤ c.toNat ∧ c.toNat ≤ 122) ∨ (48 ≤ c.toNat ∧ c.toNat ≤ 57) := by
  simp only [lowerRest, lowerStart, Bool.or_eq_true, Bool.and_eq_true, decide_eq_true_eq,
    Char.le_def, UInt32.le_iff_toNat_le] at h
  rcases h with (h | h) | h
  · exact .inr (.inl h)
  · exact .inl h
  · exact .inr (.inr h)

theorem lowerRest_of_start {c : Char} (h : lowerStart c = true) : lowerRest c = true := by
  rw [lowerRest, h]
  rfl

theorem wordStart_of_lower {c : Char} (h : lowerStart c = true) : wordStart c = true := by
  simp only [lowerStart, Bool.or_eq_true] at h
  simp only [wordStart, letter, Bool.or_eq_true]
  rcases h with h | h
  · exact .inl (.inr h)
  · exact .inr h

theorem wordRest_of_lower {c : Char} (h : lowerRest c = true) : wordRest c = true := by
  simp only [lowerRest, Bool.or_eq_true] at h
  rw [wordRest, Bool.or_eq_true]
  rcases h with h | h
  · exact .inl (wordStart_of_lower h)
  · exact .inr h

theorem toLower_of_lower {c : Char} (h : lowerRest c = true) : c.toLower = c := by
  unfold Char.toLower
  rw [dif_neg]
  rintro ⟨hlow, hhigh⟩
  have hlow' : 65 ≤ c.toNat := UInt32.le_iff_toNat_le.mp hlow
  have hhigh' : c.toNat ≤ 90 := UInt32.le_iff_toNat_le.mp hhigh
  rcases lower_bounds h with rfl | hletter | hdigit
  · exact absurd hhigh' (by decide)
  · omega
  · omega

theorem map_toLower {cs : List Char} (h : ∀ c ∈ cs, lowerRest c = true) :
    cs.map Char.toLower = cs := by
  induction cs with
  | nil => rfl
  | cons c cs ih =>
      obtain ⟨hc, hcs⟩ := List.forall_mem_cons.mp h
      rw [List.map_cons, toLower_of_lower hc, ih hcs]

theorem bare_chars {name : String} (h : isBare name = true) :
    ∃ c cs, name.toList = c :: cs ∧ lowerStart c = true ∧ ∀ d ∈ cs, lowerRest d = true :=
  plainName_iff.mp (Bool.and_eq_true_iff.mp h).1

/-- The token of a name reads as that name. -/
theorem identifierOf_nameToken (name : String) : identifierOf (nameToken name) = some name := by
  unfold nameToken
  by_cases hbare : isBare name = true
  · rw [if_pos hbare]
    obtain ⟨c, cs, hname, hc, hcs⟩ := bare_chars hbare
    have hlower : name.toList.map Char.toLower = name.toList := by
      rw [hname]
      exact map_toLower (List.forall_mem_cons.mpr ⟨lowerRest_of_start hc, hcs⟩)
    have hfree : name ∉ TRINO_RESERVED_WORDS :=
      of_decide_eq_true (Bool.and_eq_true_iff.mp hbare).2
    simp only [identifierOf, hlower, String.ofList_toList, if_neg hfree]
  · rw [if_neg hbare, identifierOf, undoubled_doubled, String.ofList_toList]

/-! ## Reading tokens back -/

theorem trinoSpace_starter (c : Char) (h : trinoSpace c = true) : starter c = false := by
  have hall : ∀ d ∈ [' ', '\t', '\n', '\r'], starter d = false := by decide
  exact hall c (of_decide_eq_true h)

/-- Plain tokens, and names. -/
def Readable (t : Token) : Prop := t.Plain trinoSpace ∨ ∃ name, t = nameToken name

theorem nameToken_cases (name : String) : (nameToken name).Plain trinoSpace ∨
    nameToken name = .quoted (doubled name.toList) := by
  unfold nameToken
  by_cases hbare : isBare name = true
  · rw [if_pos hbare]
    obtain ⟨c, cs, hname, hc, hcs⟩ := bare_chars hbare
    exact .inl ⟨c, cs, hname, wordStart_of_lower hc, fun d hd => wordRest_of_lower (hcs d hd)⟩
  · rw [if_neg hbare]
    exact .inr rfl

theorem next_readable {t : Token} (h : Readable t) (rest : List Char)
    (hstop : ∀ c ∈ rest.head?, t.stops trinoSpace c = true) :
    next trinoSpace (t.text ++ rest) = some (t, rest) := by
  rcases h with h | ⟨name, rfl⟩
  · exact next_plain trinoSpace_starter h hstop
  · rcases nameToken_cases name with h | h
    · exact next_plain trinoSpace_starter h hstop
    · rw [h] at hstop ⊢
      exact next_quoted trinoSpace_starter hstop

theorem readable_ne_nil {t : Token} (h : Readable t) : t.text ≠ [] := by
  rcases h with h | ⟨name, rfl⟩
  · exact plain_ne_nil h
  · rcases nameToken_cases name with h | h
    · exact plain_ne_nil h
    · rw [h]
      exact List.cons_ne_nil _ _

/-- What comes behind a name does not belong to it. -/
theorem apart_behind (name : String) {t : Token} {c : Char} (ht : t.text.head? = some c)
    (hc : c ∈ [',', '.', ' ', '\n']) : Apart trinoSpace (nameToken name) t := by
  have hall : ∀ d ∈ [',', '.', ' ', '\n'], wordRest d = false ∧ d ≠ '"' := by decide
  intro d hd
  rw [ht] at hd
  obtain ⟨hrest, hquote⟩ := hall c hc
  obtain rfl := Option.some.inj hd
  unfold nameToken
  split_ifs
  · simp [Token.stops, hrest]
  · simp [Token.stops, hquote]

/-- What a name begins with does not belong to white space or a point before it. -/
theorem apart_before (name : String) {t : Token}
    (ht : (∃ cs, t = .space cs) ∨ t = .symbol ['.']) : Apart trinoSpace t (nameToken name) := by
  have hhead : ∀ c ∈ (nameToken name).text.head?, lowerStart c = true ∨ c = '"' := by
    intro c hc
    unfold nameToken at hc
    by_cases hbare : isBare name = true
    · obtain ⟨d, cs, hname, hd, -⟩ := bare_chars hbare
      rw [if_pos hbare, Token.text, hname] at hc
      obtain rfl := Option.some.inj hc
      exact .inl hd
    · rw [if_neg hbare] at hc
      exact .inr (Option.some.inj hc).symm
  intro c hc
  have hstart : starter c = true ∧ Text.Regex.digit c = false := by
    rcases hhead c hc with h | rfl
    · refine ⟨by simp [starter, wordRest, wordStart_of_lower h], ?_⟩
      by_contra hdigit
      have hword := digit_not_wordStart (Bool.not_eq_false _ ▸ hdigit)
      rw [wordStart_of_lower h] at hword
      cases hword
    · decide
  rcases ht with ⟨cs, rfl⟩ | rfl
  · have hspace : trinoSpace c = false := space_false trinoSpace_starter hstart.1
    simp [Token.stops, hspace]
  · simp [Token.stops, SYMBOLS, hstart.2]

/-! ## The tokens of the query -/

def word (text : String) : Token := .word text.toList

def blank (text : String) : Token := .space text.toList

/-- Columns with commas and line breaks between them. -/
def columnTokens : List String → List Token
  | [] => []
  | [name] => [nameToken name]
  | name :: names => nameToken name :: .symbol [','] :: blank "\n  " :: columnTokens names

def orderTokens : Option String → List Token
  | none => []
  | some name =>
      [blank "\n", word "ORDER", blank " ", word "BY", blank " ", nameToken name, blank " ",
        word "DESC"]

def limitTokens : List Token :=
  [blank "\n", word "LIMIT", blank " ", .number "20".toList, .symbol [';']]

def sampleTokens (query : SampleQuery) : List Token :=
  word "SELECT" :: blank "\n  " :: (columnTokens query.columns ++
    (blank "\n" :: word "FROM" :: blank " " :: nameToken query.catalog :: .symbol ['.'] ::
      nameToken query.schema :: .symbol ['.'] :: nameToken query.table ::
      (orderTokens query.orderBy ++ limitTokens)))

/-- What the query is to say. -/
def sampleQuery (table : CatalogTable) : SampleQuery where
  columns := (table.columns.take 10).map (·.name)
  catalog := table.catalog
  schema := table.schema
  table := table.table
  orderBy := (timestampColumn table).map (·.name)

theorem columnTokens_cons {name : String} {names : List String} (h : names ≠ []) :
    columnTokens (name :: names) =
      nameToken name :: .symbol [','] :: blank "\n  " :: columnTokens names := by
  cases names with
  | nil => exact absurd rfl h
  | cons other names => rfl

theorem text_cons (t : Token) (toks : List Token) : text (t :: toks) = t.text ++ text toks := rfl

theorem text_append (toks toks' : List Token) : text (toks ++ toks') = text toks ++ text toks' :=
  List.flatMap_append

theorem columnTokens_text {names : List String} (h : names ≠ []) :
    (",\n".intercalate (names.map fun name => "  " ++ quoteIdentifier name)).toList =
      "  ".toList ++ text (columnTokens names) := by
  rw [String.toList_intercalate, List.map_map]
  induction names with
  | nil => exact absurd rfl h
  | cons name names ih =>
      have hname : (String.toList ∘ fun name => "  " ++ quoteIdentifier name) name =
          "  ".toList ++ (nameToken name).text := by
        rw [Function.comp_apply, String.toList_append, quoteIdentifier_text]
      rw [List.map_cons, hname]
      cases names with
      | nil =>
          rw [List.map_nil, List.intercalate_singleton, columnTokens, text_cons]
          show _ = _ ++ (_ ++ [])
          rw [List.append_nil]
      | cons other names =>
          have hcomma : ",\n".toList ++ "  ".toList =
              (Token.symbol [',']).text ++ (blank "\n  ").text := by decide
          rw [List.intercalate_cons_of_ne_nil (by simp), ih (List.cons_ne_nil _ _),
            columnTokens_cons (List.cons_ne_nil _ _), text_cons, text_cons, text_cons,
            List.append_assoc, List.append_assoc, ← List.append_assoc ",\n".toList, hcomma,
            List.append_assoc]

theorem getCatalogTableName_text (table : CatalogTable) :
    (getCatalogTableName table).toList = text [nameToken table.catalog, .symbol ['.'],
      nameToken table.schema, .symbol ['.'], nameToken table.table] := by
  have hpoint : ".".toList = (Token.symbol ['.']).text := by decide
  rw [getCatalogTableName, String.toList_intercalate]
  simp only [List.map_cons, List.map_nil, List.intercalate_cons_cons, List.intercalate_singleton,
    quoteIdentifier_text, hpoint, text_cons]
  show _ = _ ++ (_ ++ (_ ++ (_ ++ (_ ++ []))))
  simp only [List.append_nil, List.append_assoc]

theorem orderBy_text (name : String) :
    ("\nORDER BY " ++ quoteIdentifier name ++ " DESC").toList = text (orderTokens (some name)) := by
  have hbefore : "\nORDER BY ".toList = (blank "\n").text ++ ((word "ORDER").text ++
      ((blank " ").text ++ ((word "BY").text ++ (blank " ").text))) := by decide
  have hbehind : " DESC".toList = (blank " ").text ++ ((word "DESC").text ++ []) := by decide
  simp only [String.toList_append, quoteIdentifier_text, hbefore, hbehind, List.append_assoc,
    orderTokens, text_cons]
  rfl

/-- The query, with what is written for the order. -/
theorem query_text (query : SampleQuery) (h : query.columns ≠ []) {name orderBy : String}
    (hname : name.toList = text [nameToken query.catalog, .symbol ['.'], nameToken query.schema,
      .symbol ['.'], nameToken query.table])
    (horder : orderBy.toList = text (orderTokens query.orderBy)) :
    ("SELECT\n" ++ ",\n".intercalate (query.columns.map fun name => "  " ++ quoteIdentifier name) ++
      "\nFROM " ++ name ++ orderBy ++ "\nLIMIT 20;").toList = text (sampleTokens query) := by
  have hselect : "SELECT\n".toList ++ "  ".toList =
      (word "SELECT").text ++ (blank "\n  ").text := by decide
  have hfrom : "\nFROM ".toList = text [blank "\n", word "FROM", blank " "] := by decide
  have hlimit : "\nLIMIT 20;".toList = text limitTokens := by decide
  have htokens : sampleTokens query = [word "SELECT", blank "\n  "] ++ columnTokens query.columns ++
      [blank "\n", word "FROM", blank " "] ++ [nameToken query.catalog, .symbol ['.'],
        nameToken query.schema, .symbol ['.'], nameToken query.table] ++
      orderTokens query.orderBy ++ limitTokens := by
    simp only [sampleTokens, List.append_assoc, List.cons_append, List.nil_append]
  have hhead : text [word "SELECT", blank "\n  "] = "SELECT\n".toList ++ "  ".toList := by
    rw [hselect]
    rfl
  rw [htokens, text_append, text_append, text_append, text_append, text_append, hhead, ← hlimit,
    ← hfrom, ← hname, ← horder, List.append_assoc "SELECT\n".toList, ← columnTokens_text h]
  simp only [String.toList_append]

theorem sampleQuery_columns {table : CatalogTable} (h : table.columns ≠ []) :
    (sampleQuery table).columns ≠ [] := by
  intro hnil
  rcases List.take_eq_nil_iff.mp (List.map_eq_nil_iff.mp hnil) with hzero | hnone
  · cases hzero
  · exact h hnone

theorem sample_text (table : CatalogTable) (h : table.columns ≠ []) :
    (buildCatalogSampleSql table).toList = text (sampleTokens (sampleQuery table)) := by
  have hcolumns := sampleQuery_columns h
  have hmap : (sampleQuery table).columns.map (fun name => "  " ++ quoteIdentifier name) =
      (table.columns.take 10).map fun column => "  " ++ quoteIdentifier column.name := by
    rw [sampleQuery, List.map_map]
    rfl
  delta buildCatalogSampleSql
  rw [← hmap]
  refine query_text _ hcolumns (getCatalogTableName_text table) ?_
  show _ = text (orderTokens ((timestampColumn table).map _))
  cases timestampColumn table with
  | none => rfl
  | some column => exact orderBy_text column.name

/-! ## The tokens are read back -/

instance (a b : Token) : Decidable (Apart trinoSpace a b) :=
  decidable_of_iff (b.text.head?.all (a.stops trinoSpace) = true) (Option.all_eq_true _ _)

theorem columns_chain {names : List String} (h : names ≠ []) {tail : List Token}
    (htail : (blank "\n" :: tail).IsChain (Apart trinoSpace)) :
    (blank "\n  " :: (columnTokens names ++ blank "\n" :: tail)).IsChain (Apart trinoSpace) := by
  induction names with
  | nil => exact absurd rfl h
  | cons name names ih =>
      have hbefore := apart_before name (t := blank "\n  ") (.inl ⟨_, rfl⟩)
      cases names with
      | nil =>
          have hbehind := apart_behind name (t := blank "\n") rfl (by decide)
          exact .cons_cons hbefore (.cons_cons hbehind htail)
      | cons other names =>
          have hcomma := apart_behind name (t := .symbol [',']) rfl (by decide)
          rw [columnTokens_cons (List.cons_ne_nil _ _)]
          exact .cons_cons hbefore
            (.cons_cons hcomma (.cons_cons (by decide) (ih (List.cons_ne_nil _ _))))

theorem order_chain (name : String) (orderBy : Option String) :
    (nameToken name :: (orderTokens orderBy ++ limitTokens)).IsChain (Apart trinoSpace) := by
  have hbehind := fun name => apart_behind name (t := blank "\n") rfl (by decide)
  cases orderBy with
  | none => exact .cons_cons (hbehind name) (by decide)
  | some column =>
      have hbefore := apart_before column (t := blank " ") (.inl ⟨_, rfl⟩)
      have hblank := apart_behind column (t := blank " ") rfl (by decide)
      have hdesc : (blank " " :: word "DESC" :: limitTokens).IsChain (Apart trinoSpace) := by decide
      refine .cons_cons (hbehind name) (.cons_cons (by decide) (.cons_cons (by decide) ?_))
      exact .cons_cons (by decide) (.cons_cons (by decide)
        (.cons_cons hbefore (.cons_cons hblank hdesc)))

theorem sample_chain (query : SampleQuery) (h : query.columns ≠ []) :
    (sampleTokens query).IsChain (Apart trinoSpace) := by
  have hpoint := fun name => apart_behind name (t := .symbol ['.']) rfl (by decide)
  have hname := fun name => apart_before name (t := .symbol ['.']) (.inr rfl)
  have hcatalog := apart_before query.catalog (t := blank " ") (.inl ⟨_, rfl⟩)
  refine .cons_cons (by decide) (columns_chain h ?_)
  refine .cons_cons (by decide) (.cons_cons (by decide) (.cons_cons hcatalog ?_))
  exact .cons_cons (hpoint _) (.cons_cons (hname _) (.cons_cons (hpoint _)
    (.cons_cons (hname _) (order_chain _ _))))

theorem readable_word {text : String} (hne : text.toList ≠ [])
    (h : ∀ c ∈ text.toList, wordStart c = true) : Readable (word text) := by
  obtain ⟨c, cs, hcs⟩ := List.exists_cons_of_ne_nil hne
  rw [hcs] at h
  refine .inl ⟨c, cs, hcs, h c List.mem_cons_self, fun d hd => ?_⟩
  rw [wordRest, h d (List.mem_cons_of_mem _ hd)]
  rfl

theorem readable_blank {text : String} (hne : text.toList ≠ [])
    (h : ∀ c ∈ text.toList, trinoSpace c = true) : Readable (blank text) := .inl ⟨hne, h⟩

theorem readable_symbol {c : Char} (h : symbolChar c = true) : Readable (.symbol [c]) :=
  .inl (.inr ⟨c, rfl, h⟩)

theorem readable_name (name : String) : Readable (nameToken name) := .inr ⟨name, rfl⟩

theorem columnTokens_readable {names : List String} : ∀ t ∈ columnTokens names, Readable t := by
  induction names with
  | nil => exact fun t ht => absurd ht List.not_mem_nil
  | cons name names ih =>
      cases names with
      | nil => exact List.forall_mem_singleton.mpr (readable_name name)
      | cons other names =>
          rw [columnTokens_cons (List.cons_ne_nil _ _)]
          simp only [List.forall_mem_cons]
          exact ⟨readable_name name, readable_symbol (by decide),
            readable_blank (by decide) (by decide), ih⟩

theorem limitTokens_readable : ∀ t ∈ limitTokens, Readable t := by
  have hcount : PlainNumber "20".toList := ⟨['2', '0'], [], by decide, by simp, by decide, .inl rfl⟩
  simp only [limitTokens, List.forall_mem_cons]
  exact ⟨readable_blank (by decide) (by decide), readable_word (by decide) (by decide),
    readable_blank (by decide) (by decide), .inl hcount, readable_symbol (by decide),
    fun t ht => absurd ht List.not_mem_nil⟩

theorem orderTokens_readable {orderBy : Option String} : ∀ t ∈ orderTokens orderBy, Readable t := by
  have hblank : Readable (blank " ") := readable_blank (by decide) (by decide)
  cases orderBy with
  | none => exact fun t ht => absurd ht List.not_mem_nil
  | some name =>
      simp only [orderTokens, List.forall_mem_cons]
      exact ⟨readable_blank (by decide) (by decide), readable_word (by decide) (by decide), hblank,
        readable_word (by decide) (by decide), hblank, readable_name name, hblank,
        readable_word (by decide) (by decide), fun t ht => absurd ht List.not_mem_nil⟩

theorem sample_readable (query : SampleQuery) : ∀ t ∈ sampleTokens query, Readable t := by
  have hline : Readable (blank "\n") := readable_blank (by decide) (by decide)
  have hpoint : Readable (.symbol ['.']) := readable_symbol (by decide)
  simp only [sampleTokens, List.forall_mem_cons, List.forall_mem_append]
  exact ⟨readable_word (by decide) (by decide), readable_blank (by decide) (by decide),
    columnTokens_readable, hline, readable_word (by decide) (by decide),
    readable_blank (by decide) (by decide), readable_name _, hpoint, readable_name _, hpoint,
    readable_name _, orderTokens_readable, limitTokens_readable⟩

theorem sample_lex (query : SampleQuery) (h : query.columns ≠ []) :
    lex trinoSpace (text (sampleTokens query)) = some (sampleTokens query) :=
  lex_of_next (fun t ht => readable_ne_nil (sample_readable query t ht))
    (fun t ht => next_readable (sample_readable query t ht)) (sample_chain query h)

/-! ## The statement is read back -/

def significant : Token → Bool
  | .space _ => false
  | _ => true

theorem significant_name (name : String) : significant (nameToken name) = true := by
  unfold nameToken
  split_ifs
  · rfl
  · rfl

/-- Names with commas between them. -/
def nameList : List String → List Token
  | [] => []
  | [name] => [nameToken name]
  | name :: names => nameToken name :: .symbol [','] :: nameList names

theorem filter_columnTokens (names : List String) :
    (columnTokens names).filter significant = nameList names := by
  induction names with
  | nil => rfl
  | cons name names ih =>
      cases names with
      | nil => exact List.filter_cons_of_pos (significant_name name)
      | cons other names =>
          rw [columnTokens_cons (List.cons_ne_nil _ _), List.filter_cons_of_pos (significant_name name)]
          show nameToken name :: .symbol [','] :: (columnTokens (other :: names)).filter significant = _
          rw [ih]
          rfl

theorem readColumns_names {names : List String} (h : names ≠ []) (rest : List Token) :
    readColumns (nameList names ++ word "FROM" :: rest) = some (names, word "FROM" :: rest) := by
  induction names with
  | nil => exact absurd rfl h
  | cons name names ih =>
      cases names with
      | nil =>
          show readColumns (nameToken name :: word "FROM" :: rest) = _
          rw [readColumns, identifierOf_nameToken]
          · rfl
          · intro rest' heq
            cases heq
      | cons other names =>
          show readColumns (nameToken name :: .symbol [','] ::
            (nameList (other :: names) ++ word "FROM" :: rest)) = _
          rw [readColumns, identifierOf_nameToken, ih (List.cons_ne_nil _ _)]
          rfl

theorem readTail_order (orderBy : Option String) :
    readTail ((orderTokens orderBy ++ limitTokens).filter significant) = some orderBy := by
  cases orderBy with
  | none => rfl
  | some name =>
      have htokens : (orderTokens (some name) ++ limitTokens).filter significant =
          [word "ORDER", word "BY", nameToken name, word "DESC", word "LIMIT",
            .number "20".toList, .symbol [';']] := by
        rw [List.filter_append]
        show _ :: _ :: (nameToken name :: _).filter significant ++ _ = _
        rw [List.filter_cons_of_pos (significant_name name)]
        rfl
      rw [htokens]
      show (identifierOf (nameToken name)).map some = _
      rw [identifierOf_nameToken]
      rfl

theorem filter_sampleTokens (query : SampleQuery) :
    (sampleTokens query).filter significant =
      word "SELECT" :: (nameList query.columns ++ word "FROM" :: nameToken query.catalog ::
        .symbol ['.'] :: nameToken query.schema :: .symbol ['.'] :: nameToken query.table ::
          (orderTokens query.orderBy ++ limitTokens).filter significant) := by
  show word "SELECT" :: (columnTokens query.columns ++ _).filter significant = _
  rw [List.filter_append, filter_columnTokens]
  show _ :: (_ ++ word "FROM" :: (nameToken query.catalog :: _).filter significant) = _
  rw [List.filter_cons_of_pos (significant_name _)]
  show _ :: (_ ++ _ :: _ :: .symbol ['.'] :: (nameToken query.schema :: _).filter significant) = _
  rw [List.filter_cons_of_pos (significant_name _)]
  show _ :: (_ ++ _ :: _ :: _ :: _ :: .symbol ['.'] ::
    (nameToken query.table :: _).filter significant) = _
  rw [List.filter_cons_of_pos (significant_name _)]

theorem readSample_tokens (query : SampleQuery) (h : query.columns ≠ []) :
    readSample ((sampleTokens query).filter significant) = some query := by
  have hselect : isKeyword "select" (word "SELECT") = true := by decide
  have hfrom : isKeyword "from" (word "FROM") = true := by decide
  rw [filter_sampleTokens, readSample, if_pos hselect, readColumns_names h]
  show (do
    let catalog ← if isKeyword "from" (word "FROM") then identifierOf (nameToken query.catalog)
      else none
    let schema ← identifierOf (nameToken query.schema)
    let table ← identifierOf (nameToken query.table)
    let orderBy ← readTail ((orderTokens query.orderBy ++ limitTokens).filter significant)
    return ({ columns := query.columns, catalog, schema, table, orderBy } : SampleQuery)) = _
  rw [if_pos hfrom, readTail_order]
  simp only [identifierOf_nameToken]
  rfl

/-- Whatever the names are, the tokens of the query are the fixed ones and one for each name, and
they are one statement with the first ten columns, the three parts of the table's name and the
column of the order in their places. -/
theorem sample_query (table : CatalogTable) (h : table.columns ≠ []) :
    lex trinoSpace (buildCatalogSampleSql table).toList = some (sampleTokens (sampleQuery table)) ∧
      readSample ((sampleTokens (sampleQuery table)).filter significant) =
        some { columns := (table.columns.take 10).map (·.name), catalog := table.catalog,
               schema := table.schema, table := table.table,
               orderBy := (timestampColumn table).map (·.name) } := by
  have hcolumns := sampleQuery_columns h
  rw [sample_text table h]
  exact ⟨sample_lex _ hcolumns, readSample_tokens _ hcolumns⟩

def hostile : CatalogTable where
  catalog := "lake"
  schema := "Sales"
  table := "a\"; DROP TABLE b --"
  columns := [⟨"select", "varchar"⟩, ⟨"x\", (SELECT 1) \"", "varchar"⟩, ⟨"line\nbreak", "bigint"⟩,
    ⟨"updated_at", "varchar"⟩]

/-- Keywords, quotes, comments and line breaks in names stay names. -/
theorem sample_query_hostile :
    ∃ toks, lex trinoSpace (buildCatalogSampleSql hostile).toList = some toks ∧
      readSample (toks.filter significant) =
        some { columns := ["select", "x\", (SELECT 1) \"", "line\nbreak", "updated_at"],
               catalog := "lake", schema := "Sales", table := "a\"; DROP TABLE b --",
               orderBy := some "updated_at" } := by
  obtain ⟨hlex, hread⟩ := sample_query hostile (List.cons_ne_nil _ _)
  have horder : (timestampColumn hostile).map (·.name) = some "updated_at" := by decide
  rw [horder] at hread
  exact ⟨_, hlex, hread⟩

end Web
