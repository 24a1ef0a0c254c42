import Beluga.Upstream.SqlPieces

/-! # What the redaction shows

`redact_pieces` says what is put out for each piece of a text. Of a numeric literal
the point before it and the sign of its exponent stay (`Piece.outline`), and a quoted
identifier stays as it is, terminated or not.

* `redaction_safe`: the output is clean; it does not depend on what is redacted, up to
  the outlines of the numeric literals; nothing of what is not terminated is shown,
  unless it is a quoted identifier.
-/

namespace Upstream

namespace Redaction

open Text

def exponentShown (exponent : Option (Char × List Char)) : List Char :=
  exponent.elim [] fun signed => [signed.1, '?']

def Piece.shown : Piece → List Char
  | .string _ _ => ['?']
  | .line _ => [' ']
  | .block _ _ => [' ']
  | .number point _ exponent => closing point '.' ++ '?' :: exponentShown exponent
  | p => p.text

/-! ## The loop, piece by piece -/

section Loop

variable {out cs rest : List Char} {c : Char}

/-- A digit that comes next does not go on a word. -/
def Ready (out rest : List Char) : Prop :=
  out.getLast?.any wordChar = true → rest.head?.any Regex.digit = false

theorem ready_of_last (hc : wordChar c = false) : Ready (out ++ [c]) rest := by
  intro h
  simp [hc] at h

theorem ready_mark (point : Bool) (exponent : Option (Char × List Char)) :
    Ready (out ++ (closing point '.' ++ '?' :: exponentShown exponent)) rest := by
  cases exponent with
  | none =>
      rw [← List.append_assoc]
      exact ready_of_last (by decide)
  | some signed =>
      have heq : out ++ (closing point '.' ++ '?' :: exponentShown (some signed)) =
          (out ++ (closing point '.' ++ ['?', signed.1])) ++ ['?'] := by
        simp [exponentShown]
      rw [heq]
      exact ready_of_last (by decide)

theorem skipQuoted_eq (q : Char) (cs : List Char) : skipQuoted q cs =
    match Sql.scanQuoted q cs with
    | some (body, rest) => (body ++ [q], rest)
    | none => (cs, []) := by
  induction cs using skipQuoted.induct q with
  | case1 => rfl
  | case2 c =>
      rw [skipQuoted, Sql.scanQuoted]
      by_cases hc : c = q
      · rw [if_pos hc, hc]
        rfl
      · rw [if_neg hc]
  | case3 cs ih =>
      rw [skipQuoted, if_pos rfl, if_pos rfl, ih, Sql.scanQuoted, if_pos rfl, if_pos rfl]
      cases Sql.scanQuoted q cs with
      | none => rfl
      | some found => rfl
  | case4 d cs hne =>
      rw [skipQuoted, if_pos rfl, if_neg hne, Sql.scanQuoted, if_pos rfl, if_neg hne]
      rfl
  | case5 c d cs hne ih =>
      rw [skipQuoted, if_neg hne, ih, Sql.scanQuoted, if_neg hne]
      cases Sql.scanQuoted q (d :: cs) with
      | none => rfl
      | some found => rfl

theorem skipBlock_eq (cs : List Char) : skipBlock cs =
    match Sql.scanBlock cs with
    | some (_, rest) => rest
    | none => [] := by
  induction cs using skipBlock.induct with
  | case1 c d cs hend => rw [skipBlock, if_pos hend, Sql.scanBlock, if_pos hend]
  | case2 c d cs hend ih =>
      rw [skipBlock, if_neg hend, ih, Sql.scanBlock, if_neg hend]
      cases Sql.scanBlock (d :: cs) with
      | none => rfl
      | some found => rfl
  | case3 cs h =>
      rcases cs with _ | ⟨c, _ | ⟨d, cs⟩⟩
      · rfl
      · rfl
      · exact absurd rfl (h c d cs)

/-- What is no delimiter, and no digit outside a word, is put out as it is. -/
theorem redactStep_other (hquote : c ≠ '\'') (hdouble : c ≠ '"')
    (hline : ¬ (c = '-' ∧ rest.head? = some '-')) (hblock : ¬ (c = '/' ∧ rest.head? = some '*'))
    (hdigit : Regex.digit c = true → out.getLast?.any wordChar = true) :
    redactStep out c rest = (out ++ [c], rest) := by
  rw [redactStep, if_neg hquote, if_neg hdouble, if_neg hline, if_neg hblock, if_neg]
  rintro ⟨hd, hlast⟩
  rw [hdigit hd] at hlast
  cases hlast

theorem scan_cons' (out : List Char) (c : Char) (rest : List Char) :
    scan redactStep out (c :: rest) =
      scan redactStep (redactStep out c rest).1 (redactStep out c rest).2 :=
  scan_cons redactStep_shrinks

theorem word_ne (hc : wordChar c = true) : c ≠ '\'' ∧ c ≠ '"' ∧ c ≠ '-' ∧ c ≠ '/' := by
  refine ⟨?_, ?_, ?_, ?_⟩
  all_goals
    rintro rfl
    revert hc
    decide

theorem scan_other (hquote : c ≠ '\'') (hdouble : c ≠ '"')
    (hline : ¬ (c = '-' ∧ rest.head? = some '-')) (hblock : ¬ (c = '/' ∧ rest.head? = some '*'))
    (hdigit : Regex.digit c = true → out.getLast?.any wordChar = true) :
    scan redactStep out (c :: rest) = scan redactStep (out ++ [c]) rest := by
  rw [scan_cons', redactStep_other hquote hdouble hline hblock hdigit]

/-- The rest of a word is put out as it is. -/
theorem scan_word {w : List Char} (hw : ∀ d ∈ w, wordChar d = true)
    (hout : out.getLast?.any wordChar = true) :
    scan redactStep out (w ++ rest) = scan redactStep (out ++ w) rest := by
  induction w generalizing out with
  | nil => rw [List.nil_append, List.append_nil]
  | cons d w ih =>
      have hd := hw d List.mem_cons_self
      obtain ⟨hquote, hdouble, hminus, hslash⟩ := word_ne hd
      rw [List.cons_append, scan_other hquote hdouble (fun h => hminus h.1) (fun h => hslash h.1)
        fun _ => hout]
      rw [ih (fun x hx => hw x (List.mem_cons_of_mem d hx)) (by simpa using hd),
        List.append_assoc]
      rfl

theorem digit_ne (hc : Regex.digit c = true) : wordChar c = true ∧ numeralChar c = true := by
  simp [wordChar, numeralChar, Sql.wordRest, hc]

/-- The run of a number is one mark. -/
theorem scan_digit (hc : Regex.digit c = true) (hout : out.getLast?.any wordChar = false) :
    scan redactStep out (c :: cs) =
      scan redactStep (out ++ ['?']) ((c :: cs).dropWhile numeralChar) := by
  obtain ⟨hquote, hdouble, hminus, hslash⟩ := word_ne (digit_ne hc).1
  rw [scan_cons', redactStep, if_neg hquote, if_neg hdouble, if_neg fun h => hminus h.1,
    if_neg fun h => hslash h.1, if_pos ⟨hc, hout⟩, List.dropWhile_cons, if_pos (digit_ne hc).2]

/-- A numeric literal behind its point. -/
theorem scan_numeral (point : Bool) (hcs : cs.head?.any Regex.digit = true)
    (hout : out.getLast?.any wordChar = false) : ∃ digits exponent,
      (scanNumeral point cs).1 = .number point digits exponent ∧
      scan redactStep out cs =
        scan redactStep (out ++ '?' :: exponentShown exponent) (scanNumeral point cs).2 := by
  cases cs with
  | nil => cases hcs
  | cons d cs =>
      rw [scan_digit hcs hout]
      rcases scanNumeral_cases point (d :: cs) with
        ⟨run, e, sign, rest, heq, hrun, hsigned, hscan⟩ | ⟨-, hscan⟩
      · rw [hscan]
        refine ⟨_, _, rfl, ?_⟩
        have hrun' : ∀ x ∈ run ++ [e], numeralChar x = true := by
          intro x hx
          rcases List.mem_append.mp hx with hx | hx
          · exact numeral_of_mantissa (hrun x hx)
          · rw [List.mem_singleton.mp hx]
            exact hsigned.chars.2.1
        rw [heq, show run ++ e :: sign :: rest = (run ++ [e]) ++ (sign :: rest) by simp,
          List.dropWhile_append_of_pos hrun', List.dropWhile_cons,
          if_neg (by rw [hsigned.chars.2.2]; exact Bool.false_ne_true)]
        obtain ⟨-, hsign, hdigit⟩ := hsigned
        cases rest with
        | nil => cases hdigit
        | cons x rest =>
            simp only [List.head?_cons, Option.any_some] at hdigit
            have hline : ¬ (sign = '-' ∧ (x :: rest).head? = some '-') := by
              rintro ⟨-, hx⟩
              rw [List.head?_cons, Option.some.injEq] at hx
              rw [hx] at hdigit
              revert hdigit
              decide
            -- the sign is put out, then a second mark
            have hone : sign ≠ '\'' ∧ sign ≠ '"' ∧ sign ≠ '/' ∧ Regex.digit sign = false ∧
                wordChar sign = false := by
              rcases hsign with rfl | rfl
              · decide
              · decide
            obtain ⟨hquote, hdouble, hslash, hnot, hword⟩ := hone
            rw [scan_other hquote hdouble hline (fun h => hslash h.1) (by rw [hnot]; exact nofun),
              scan_digit hdigit (by simpa using hword)]
            simp [exponentShown]
      · rw [hscan]
        exact ⟨_, none, rfl, rfl⟩

/-- Each piece is put out as it is shown. -/
theorem scan_piece (hready : Ready out (c :: cs)) :
    scan redactStep out (c :: cs) =
        scan redactStep (out ++ (nextPiece c cs).1.shown) (nextPiece c cs).2 ∧
      Ready (out ++ (nextPiece c cs).1.shown) (nextPiece c cs).2 := by
  have hlast : Regex.digit c = true → out.getLast?.any wordChar = false := by
    intro hdigit
    by_contra hword
    have hno := hready (by simpa using hword)
    rw [List.head?_cons, Option.any_some, hdigit] at hno
    cases hno
  rw [nextPiece]
  split_ifs with hquote hdouble hline hblock hdigit hpoint hword
  · rw [scan_cons', redactStep, if_pos hquote, skipQuoted_eq]
    cases Sql.scanQuoted c cs with
    | none => exact ⟨rfl, ready_of_last (by decide)⟩
    | some found => exact ⟨rfl, ready_of_last (by decide)⟩
  · rw [scan_cons', redactStep, if_neg hquote, if_pos hdouble, skipQuoted_eq, hdouble]
    cases Sql.scanQuoted '"' cs with
    | none =>
        refine ⟨?_, fun _ => rfl⟩
        show scan redactStep (out ++ '"' :: cs) [] = scan redactStep (out ++ '"' :: (cs ++ [])) []
        rw [List.append_nil]
    | some found =>
        refine ⟨rfl, ?_⟩
        have heq : out ++ (Piece.quoted found.1 true).shown = (out ++ '"' :: found.1) ++ ['"'] := by
          simp [Piece.shown, Piece.text, closing]
        show Ready (out ++ (Piece.quoted found.1 true).shown) found.2
        rw [heq]
        exact ready_of_last (by decide)
  · have hskip : cs.dropWhile (· ≠ '\n') = cs.tail.dropWhile (· ≠ '\n') := by
      obtain ⟨tail, rfl⟩ := List.head?_eq_some_iff.mp hline.2
      rfl
    rw [scan_cons', redactStep, if_neg hquote, if_neg hdouble, if_pos hline, hskip]
    exact ⟨rfl, ready_of_last (by decide)⟩
  · rw [scan_cons', redactStep, if_neg hquote, if_neg hdouble, if_neg hline, if_pos hblock,
      skipBlock_eq]
    cases Sql.scanBlock cs.tail with
    | none => exact ⟨rfl, ready_of_last (by decide)⟩
    | some found => exact ⟨rfl, ready_of_last (by decide)⟩
  · obtain ⟨digits, exponent, hp, hscan⟩ := @scan_numeral out (c :: cs) false hdigit (hlast hdigit)
    rw [hscan, hp]
    exact ⟨rfl, ready_mark _ _⟩
  · obtain ⟨hc, hhead⟩ := hpoint
    have hpoint' : (out ++ [c]).getLast?.any wordChar = false := by
      rw [hc]
      simp
      decide
    obtain ⟨digits, exponent, hp, hscan⟩ := scan_numeral true hhead hpoint'
    rw [scan_other hquote hdouble hline hblock fun h => absurd h hdigit, hscan, hp, hc]
    refine ⟨?_, ?_⟩
    · show scan redactStep (out ++ ['.'] ++ '?' :: exponentShown exponent) _ =
        scan redactStep (out ++ (['.'] ++ '?' :: exponentShown exponent)) _
      rw [List.append_assoc]
    · show Ready (out ++ ('.' :: '?' :: exponentShown exponent)) _
      have hmark := @ready_mark (out ++ ['.']) (scanNumeral true cs).2 false exponent
      rwa [List.append_assoc] at hmark
  · have hstart : scan redactStep out (c :: cs) = scan redactStep (out ++ [c]) cs :=
      scan_other hquote hdouble hline hblock fun h => absurd h hdigit
    have hw : ∀ d ∈ cs.takeWhile wordChar, wordChar d = true :=
      fun d hd => List.mem_takeWhile_imp hd
    have hrest := @scan_word (out ++ [c]) (cs.dropWhile wordChar) _ hw
      (by simpa using word_of_begin hword)
    rw [List.takeWhile_append_dropWhile] at hrest
    rw [hstart, hrest]
    refine ⟨?_, fun _ => ?_⟩
    · rw [List.append_assoc]
      rfl
    · -- behind the word there is no digit
      cases hdrop : cs.dropWhile wordChar with
      | nil => rfl
      | cons d rest =>
          have hd : wordChar d = false := by
            have hnot := List.head?_dropWhile_not wordChar cs
            rw [hdrop] at hnot
            simpa using hnot
          rw [List.head?_cons, Option.any_some]
          by_contra hdig
          rw [(digit_ne (by simpa using hdig)).1] at hd
          cases hd
  · refine ⟨scan_other hquote hdouble hline hblock fun h => absurd h hdigit, ready_of_last ?_⟩
    by_contra hc
    have hc' : wordChar c = true := by simpa using hc
    exact hword (wordBegin_of_not_digit hc' hdigit)

end Loop

theorem redact_pieces {out cs : List Char} (hready : Ready out cs) :
    scan redactStep out cs = out ++ (pieces cs).flatMap Piece.shown := by
  induction hlen : cs.length using Nat.strongRecOn generalizing out cs with
  | ind m ih =>
      cases cs with
      | nil => exact (List.append_nil out).symm
      | cons c cs =>
          obtain ⟨hscan, hready'⟩ := scan_piece hready
          have hle := length_nextPiece c cs
          rw [List.length_cons] at hlen
          rw [hscan, ih _ (by omega) hready' rfl, pieces_cons, List.flatMap_cons, List.append_assoc]

/-- The output, piece by piece. -/
theorem toList_redact (sql : String) :
    (redactSqlLiterals sql).toList = trim ((pieces sql.toList).flatMap Piece.shown) := by
  rw [redactSqlLiterals, String.toList_ofList, redact_pieces fun h => by cases h]
  rfl

/-! ## What is redacted -/

/-- A piece without what is redacted of it. -/
def Piece.erase : Piece → Piece
  | .string _ closed => .string [] closed
  | .line _ => .line []
  | .block _ closed => .block [] closed
  | .number _ _ _ => .number false [] none
  | p => p

/-- The texts differ only in the contents of strings, comments and numeric literals. -/
def Alike (a b : String) : Prop :=
  (pieces a.toList).map Piece.erase = (pieces b.toList).map Piece.erase

instance (a b : String) : Decidable (Alike a b) := inferInstanceAs (Decidable (_ = _))

/-- They differ in the contents of one of these at most. -/
def DifferInOne (a b : String) : Prop :=
  ∃ before p q after, pieces a.toList = before ++ p :: after ∧
    pieces b.toList = before ++ q :: after ∧ p.erase = q.erase

/-- The point that a numeric literal begins with, and the sign of its exponent. -/
def Piece.outline : Piece → Option (Bool × Option Char)
  | .number point _ exponent => some (point, exponent.map (·.1))
  | _ => none

def SameOutlines (a b : String) : Prop :=
  (pieces a.toList).map Piece.outline = (pieces b.toList).map Piece.outline

instance (a b : String) : Decidable (SameOutlines a b) := inferInstanceAs (Decidable (_ = _))

theorem exponentShown_inj {exponent exponent' : Option (Char × List Char)} :
    exponentShown exponent = exponentShown exponent' ↔
      exponent.map (·.1) = exponent'.map (·.1) := by
  cases exponent with
  | none =>
      cases exponent' with
      | none => simp
      | some signed => simp [exponentShown]
  | some signed =>
      cases exponent' with
      | none => simp [exponentShown]
      | some signed' => simp [exponentShown]

/-- Of what is redacted the outline is shown, and nothing else. -/
theorem shown_eq_iff {p q : Piece} (h : p.erase = q.erase) :
    p.shown = q.shown ↔ p.outline = q.outline := by
  cases p with
  | number point digits exponent =>
      cases q with
      | number point' digits' exponent' =>
          show closing point '.' ++ '?' :: exponentShown exponent =
            closing point' '.' ++ '?' :: exponentShown exponent' ↔ _
          simp only [Piece.outline, Option.some.injEq, Prod.mk.injEq, ← exponentShown_inj]
          cases point with
          | false => cases point' <;> simp [closing]
          | true => cases point' <;> simp [closing]
      | _ => cases h
  | string body closed =>
      cases q with
      | string => exact iff_of_true rfl rfl
      | _ => cases h
  | line body =>
      cases q with
      | line => exact iff_of_true rfl rfl
      | _ => cases h
  | block body closed =>
      cases q with
      | block => exact iff_of_true rfl rfl
      | _ => cases h
  | quoted body closed =>
      cases q with
      | quoted =>
          cases h
          exact iff_of_true rfl rfl
      | _ => cases h
  | word text =>
      cases q with
      | word =>
          cases h
          exact iff_of_true rfl rfl
      | _ => cases h
  | other c =>
      cases q with
      | other =>
          cases h
          exact iff_of_true rfl rfl
      | _ => cases h

theorem redact_alike {a b : String} (halike : Alike a b) (hsame : SameOutlines a b) :
    redactSqlLiterals a = redactSqlLiterals b := by
  have hshown : ∀ ps qs : List Piece, ps.map Piece.erase = qs.map Piece.erase →
      ps.map Piece.outline = qs.map Piece.outline →
        ps.flatMap Piece.shown = qs.flatMap Piece.shown := by
    intro ps
    induction ps with
    | nil =>
        intro qs herase _
        rw [List.map_eq_nil_iff.mp herase.symm]
    | cons p ps ih =>
        intro qs herase houtline
        cases qs with
        | nil => cases herase
        | cons q qs =>
            obtain ⟨hp, hps⟩ := List.cons.inj herase
            obtain ⟨ho, hos⟩ := List.cons.inj houtline
            rw [List.flatMap_cons, List.flatMap_cons, (shown_eq_iff hp).mpr ho, ih qs hps hos]
  apply String.toList_inj.mp
  rw [toList_redact, toList_redact, hshown _ _ halike hsame]

/-- A numeric literal is not trimmed. -/
theorem number_ends (point : Bool) (digits : List Char) (exponent : Option (Char × List Char)) :
    Starts (Piece.number point digits exponent).shown ∧
      Ends (Piece.number point digits exponent).shown := by
  constructor
  · cases point with
    | false => exact ⟨'?', _, rfl, by decide⟩
    | true => exact ⟨'.', _, rfl, by decide⟩
  · cases exponent with
    | none => exact ⟨closing point '.', '?', rfl, by decide⟩
    | some signed =>
        refine ⟨closing point '.' ++ ['?', signed.1], '?', ?_, by decide⟩
        simp [Piece.shown, exponentShown]

theorem sameOutlines_of_eq {a b : String} (hone : DifferInOne a b)
    (heq : redactSqlLiterals a = redactSqlLiterals b) : SameOutlines a b := by
  obtain ⟨before, p, q, after, ha, hb, herase⟩ := hone
  rw [SameOutlines, ha, hb, List.map_append, List.map_append, List.map_cons, List.map_cons]
  have houtline : p.outline = q.outline := by
    cases p with
    | number point digits exponent =>
        cases q with
        | number point' digits' exponent' =>
            rw [← shown_eq_iff herase]
            have htrim := congrArg String.toList heq
            obtain ⟨hstarts, hends⟩ := number_ends point digits exponent
            obtain ⟨hstarts', hends'⟩ := number_ends point' digits' exponent'
            rw [toList_redact, toList_redact, ha, hb, List.flatMap_append, List.flatMap_append,
              List.flatMap_cons, List.flatMap_cons, trim_around hstarts hends,
              trim_around hstarts' hends'] at htrim
            exact List.append_cancel_right (List.append_cancel_left htrim)
        | _ => cases herase
    | _ =>
        cases q with
        | number => cases herase
        | _ => rfl
  rw [houtline]

/-! ## What is not terminated -/

/-- The opening delimiter of a piece that is not terminated. Behind a line that ends a text there is
no line break. -/
def Piece.opening : Piece → Option (List Char)
  | .string _ false => some ['\'']
  | .quoted _ false => some ['"']
  | .block _ false => some ['/', '*']
  | .line _ => some ['-', '-']
  | _ => none

/-- Nothing behind the delimiter is shown: the output is that of the text that ends there. -/
def FailClosed (sql : String) : Prop :=
  ∀ before p opening, pieces sql.toList = before ++ [p] → p.opening = some opening →
    redactSqlLiterals sql =
      redactSqlLiterals (String.ofList (before.flatMap Piece.text ++ opening))

/-- The text ends in a quoted identifier that is not terminated, and not blank. -/
def Dangling (sql : String) : Prop :=
  ∃ before body, pieces sql.toList = before ++ [.quoted body false] ∧ ¬ Blank body

/-- The text that ends at the delimiter. -/
theorem pieces_opening {cs opening : List Char} {before : List Piece} {p : Piece}
    (h : pieces cs = before ++ [p]) (hopen : p.opening = some opening) :
    pieces (before.flatMap Piece.text ++ opening) = before ++ pieces opening := by
  have hfront : ∃ body, p.text = opening ++ body ∧ opening ≠ [] := by
    cases p with
    | string body closed =>
        cases closed with
        | false => cases hopen; exact ⟨body ++ [], rfl, List.cons_ne_nil _ _⟩
        | true => cases hopen
    | quoted body closed =>
        cases closed with
        | false => cases hopen; exact ⟨body ++ [], rfl, List.cons_ne_nil _ _⟩
        | true => cases hopen
    | block body closed =>
        cases closed with
        | false => cases hopen; exact ⟨body, rfl, List.cons_ne_nil _ _⟩
        | true => cases hopen
    | line body => cases hopen; exact ⟨body, rfl, List.cons_ne_nil _ _⟩
    | _ => cases hopen
  obtain ⟨body, htext, hne⟩ := hfront
  have hcs := pieces_text cs
  rw [h, List.flatMap_append, List.flatMap_singleton, htext, ← List.append_assoc] at hcs
  rw [← hcs] at h
  exact pieces_append hne h (by rw [List.flatMap_singleton, htext])

theorem redact_opening {sql : String} {opening : List Char} {before : List Piece} {p : Piece}
    (h : pieces sql.toList = before ++ [p]) (hopen : p.opening = some opening) :
    redactSqlLiterals sql = redactSqlLiterals (String.ofList (before.flatMap Piece.text ++ opening)) ↔
      ∀ body, p = .quoted body false → Blank body := by
  rw [← String.toList_inj, toList_redact, toList_redact, String.toList_ofList,
    pieces_opening h hopen, h, List.flatMap_append, List.flatMap_append]
  cases p with
  | string body closed =>
      cases closed with
      | false => cases hopen; exact iff_of_true rfl nofun
      | true => cases hopen
  | quoted body closed =>
      cases closed with
      | false =>
          cases hopen
          have hstarts : Starts ['"'] := ⟨'"', [], rfl, by decide⟩
          have hends : Ends ['"'] := ⟨[], '"', rfl, by decide⟩
          show trim (_ ++ (['"'] ++ (body ++ [] ++ []))) = trim (_ ++ (['"'] ++ [])) ↔ _
          rw [trim_around hstarts hends, trim_around hstarts hends, List.append_nil,
            List.append_nil]
          constructor
          · intro heq body' hbody'
            cases hbody'
            have hnil := List.append_cancel_left (List.append_cancel_left heq)
            exact fun c hc => List.rdropWhile_eq_nil_iff.mp hnil c hc
          · intro hblank
            have hnil : body.rdropWhile Regex.space = [] :=
              List.rdropWhile_eq_nil_iff.mpr fun c hc => hblank body rfl c hc
            rw [hnil, List.rdropWhile_nil]
      | true => cases hopen
  | block body closed =>
      cases closed with
      | false => cases hopen; exact iff_of_true rfl nofun
      | true => cases hopen
  | line body => cases hopen; exact iff_of_true rfl nofun
  | _ => cases hopen

theorem failClosed_iff (sql : String) : FailClosed sql ↔ ¬ Dangling sql := by
  constructor
  · intro hclosed ⟨before, body, hpieces, hblank⟩
    exact hblank ((redact_opening hpieces rfl).mp (hclosed _ _ _ hpieces rfl) body rfl)
  · intro hdangling before p opening hpieces hopen
    rw [redact_opening hpieces hopen]
    intro body hbody
    by_contra hblank
    exact hdangling ⟨before, body, hbody ▸ hpieces, hblank⟩

/-- The redaction of a text, seen beside another one. -/
structure Safe (a b : String) : Prop where
  clean : Clean (redactSqlLiterals a).toList
  blind : Alike a b → redactSqlLiterals a = redactSqlLiterals b
  failClosed : FailClosed a

/-- The redaction is safe, if the numeric literals have the same outlines and no quoted identifier is
left open. The second is needed, and the first where the texts differ in one literal. -/
theorem redaction_safe (a b : String) :
    ((Alike a b → SameOutlines a b) ∧ ¬ Dangling a → Safe a b) ∧
    (Safe a b → ¬ Dangling a ∧ (DifferInOne a b → SameOutlines a b)) := by
  constructor
  · rintro ⟨hsame, hdangling⟩
    exact ⟨redact_clean a, fun halike => redact_alike halike (hsame halike),
      (failClosed_iff a).mpr hdangling⟩
  · intro hsafe
    refine ⟨(failClosed_iff a).mp hsafe.failClosed, fun hone => ?_⟩
    have halike : Alike a b := by
      obtain ⟨before, p, q, after, ha, hb, herase⟩ := hone
      rw [Alike, ha, hb, List.map_append, List.map_append, List.map_cons, List.map_cons, herase]
    exact sameOutlines_of_eq hone (hsafe.blind halike)

/-- A quoted identifier that is left open is shown; two ways to write a number are told apart. -/
theorem redaction_broken :
    (redactSqlLiterals "SELECT \"secret" = "SELECT \"secret" ∧
      ¬ Safe "SELECT \"secret" "SELECT \"secret") ∧
    (Alike "SELECT .5" "SELECT 0.5" ∧ redactSqlLiterals "SELECT .5" = "SELECT .?" ∧
      redactSqlLiterals "SELECT 0.5" = "SELECT ?") ∧
    Alike "SELECT 1e-5" "SELECT 1e5" ∧ redactSqlLiterals "SELECT 1e-5" = "SELECT ?-?" ∧
      redactSqlLiterals "SELECT 1e5" = "SELECT ?" := by
  refine ⟨⟨by decide +kernel, fun hsafe => ?_⟩, by decide +kernel⟩
  have hpieces : pieces "SELECT \"secret".toList =
      [.word "SELECT".toList, .other ' '] ++ [.quoted "secret".toList false] := by decide +kernel
  have hclosed := hsafe.failClosed _ _ _ hpieces rfl
  revert hclosed
  decide +kernel

/-- `redaction_safe` on two texts with strings, numbers and comments. -/
theorem redaction_safe_alike :
    Safe "name = 'O''Brien' and x1 > 1.5e3 -- the first" "name = '' and x1 > 27 -- the second" := by
  refine (redaction_safe _ _).1 ⟨fun _ => by decide +kernel, fun ⟨before, body, hpieces, _⟩ => ?_⟩
  have hlast := congrArg List.getLast? hpieces
  rw [List.getLast?_concat] at hlast
  revert hlast
  have hcomment : (pieces "name = 'O''Brien' and x1 > 1.5e3 -- the first".toList).getLast? =
      some (.line " the first".toList) := by decide +kernel
  rw [hcomment]
  exact nofun

end Redaction

end Upstream
