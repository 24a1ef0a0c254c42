import Mathlib.Data.List.Basic

/-! # Texts of the commit and the pull request

`prText.ts`, shared by the submit route and the reconciler's recovery path so
that both produce the same pull request. -/

namespace Sso

/-- The white space of a JavaScript regular expression (`\s`) and of `trim`. -/
def isJsSpace (c : Char) : Bool :=
  (9 ≤ c.toNat ∧ c.toNat ≤ 13) ∨ c.toNat = 0x20 ∨ c.toNat = 0xA0 ∨ c.toNat = 0x1680 ∨
    (0x2000 ≤ c.toNat ∧ c.toNat ≤ 0x200A) ∨ c.toNat = 0x2028 ∨ c.toNat = 0x2029 ∨
    c.toNat = 0x202F ∨ c.toNat = 0x205F ∨ c.toNat = 0x3000 ∨ c.toNat = 0xFEFF

/-- `[\u0000-\u001F\u007F\s]`. -/
def isGap (c : Char) : Bool := c.toNat ≤ 0x1F ∨ c.toNat = 0x7F ∨ isJsSpace c

/-- `text.replace(/[...]+/g, " ")`; the flag says that a gap was just replaced. -/
def collapseGaps : Bool → List Char → List Char
  | _, [] => []
  | afterGap, c :: rest =>
      if isGap c then
        if afterGap then collapseGaps true rest else ' ' :: collapseGaps true rest
      else c :: collapseGaps false rest

def jsTrim (text : List Char) : List Char :=
  ((text.dropWhile isJsSpace).reverse.dropWhile isJsSpace).reverse

def oneLine (text : String) : String :=
  String.ofList (jsTrim (collapseGaps false text.toList))

def markdownSpecial : List Char := "\\`*_\x7b\x7d[]<>()#+-.!|~@&:".toList

/-- Requester names end up in Markdown; escaped they render as plain text. -/
def escapeMarkdown (text : String) : String :=
  String.ofList ((oneLine text).toList.flatMap fun c =>
    if c ∈ markdownSpecial then ['\\', c] else [c])

def prTitle (endpoint : String) : String :=
  "chore(gitops): update allowedGroups of " ++ endpoint ++ " via Manager"

/-- Subject, blank line, trailer. -/
def commitMessage (endpoint : String) (username : Option String) (sub : String) : String :=
  "chore(sso): " ++ endpoint ++ " allowedGroups via Manager\n\nRequested-by: " ++
    oneLine (username.getD "unknown") ++ " (" ++ oneLine sub ++ ")"

/-- `replace(/\r\n?/g, "\n")`; the flag says that a carriage return was just replaced. -/
def unixLines : Bool → List Char → List Char
  | _, [] => []
  | afterCr, c :: rest =>
      if c = '\r' then '\n' :: unixLines true rest
      else if c = '\n' ∧ afterCr = true then unixLines false rest
      else c :: unixLines false rest

/-- The reason without backticks, so that it cannot close the code fence. -/
def fencedReason : Option String → String
  | none => "(none given)"
  | some reason =>
      if reason = "" then "(none given)"
      else String.ofList (unixLines false (reason.toList.filter fun c => c.toNat ≠ 96))

structure PrBodyInput where
  username : Option String
  sub : String
  reason : Option String
  baseBlobSha : String
  sourceCommitSha : String
  diff : String

def prBody (input : PrBodyInput) : String :=
  "\n".intercalate [
    "Requested through Beluga Manager (ADR-0009). Review like any other change; " ++
      "the Manager never merges.",
    "",
    "Requested-by: " ++ escapeMarkdown (input.username.getD "unknown") ++
      " (" ++ escapeMarkdown input.sub ++ ")",
    "Base-blob-sha: " ++ input.baseBlobSha,
    "Source-commit-sha: " ++ input.sourceCommitSha,
    "",
    "Reason:",
    "```text",
    fencedReason input.reason,
    "```",
    "",
    "````diff",
    input.diff,
    "````"]

end Sso
