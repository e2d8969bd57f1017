import Mathlib.Data.List.Sort
import Mathlib.Data.List.Basic

/-!
# The package-ownership check of the release workflow

`scripts/check-codeowners-auth.ts` parses `.github/CODEOWNERS`, picks the rule that covers the
package path `PACKAGE`, and authorizes `ACTOR` against that rule's owners.  A string is handled as
its list of characters: every comparison the script makes (`===`, `startsWith`, `endsWith`) reads
that way.

* `parseCodeowners_eq`: every line that is neither blank, a comment nor a `*` line becomes one rule,
  in file order; the last `*` line gives `rootOwners`.
* `matchedRule_eq_find`: the `/python`-stripped path never changes the choice.  The rule used is the
  first rule in file order that matches `PACKAGE`, and the root owners' pseudo-rule when none does.
* `matchedRule_mostSpecific_of_sorted`: that rule is a most specific one whenever the matching rules
  come narrowest first in the file.
-/

namespace AgUi

namespace CheckCodeownersAuth

/-! ### Parsing `CODEOWNERS` -/

/-- JavaScript's `WhiteSpace` and `LineTerminator` characters: what `trim()` removes and `\s`
matches. -/
def isJsWhitespace (c : Char) : Bool :=
  ['\t', '\n', '\x0b', '\x0c', '\r', ' ', '\u00a0', '\u1680', '\u2000', '\u2001', '\u2002', '\u2003',
    '\u2004', '\u2005', '\u2006', '\u2007', '\u2008', '\u2009', '\u200a', '\u2028',
    '\u2029', '\u202f', '\u205f', '\u3000', '\ufeff'].contains c

/-- `line.trim()`. -/
def trim (line : String) : String :=
  ⟨((line.toList.dropWhile isJsWhitespace).reverse.dropWhile isJsWhitespace).reverse⟩

/-- `trimmed.split(/\s+/)` for a line with no whitespace at either end: the pieces between the runs
of whitespace. -/
def splitWhitespace (trimmed : String) : List String :=
  ((trimmed.toList.splitOnP isJsWhitespace).filter (· ≠ [])).map String.mk

structure CodeownersRule where
  pattern : String
  owners : List String
  deriving DecidableEq, Repr

/-- What the parsing loop leaves behind. -/
structure Codeowners where
  rules : List CodeownersRule
  rootOwners : List String
  deriving DecidableEq, Repr

/-- One turn of the parsing loop: blank lines and comments are skipped, a `*` line sets
`rootOwners`, any other line appends a rule.  `o.replace("@", "")` drops the first `@`. -/
def parseLine (c : Codeowners) (line : String) : Codeowners :=
  let trimmed := trim line
  if trimmed = "" ∨ "#".toList.isPrefixOf trimmed.toList then c
  else
    let parts := splitWhitespace trimmed
    let pattern := parts.headD ""
    let owners := (parts.drop 1).map fun o => String.mk (o.toList.erase '@')
    if pattern = "*" then { c with rootOwners := owners }
    else { c with rules := c.rules ++ [⟨pattern, owners⟩] }

/-- `readFileSync(".github/CODEOWNERS").split("\n")` through the parsing loop. -/
def parseCodeowners (text : String) : Codeowners :=
  ((text.toList.splitOnP (· = '\n')).map String.mk).foldl parseLine ⟨[], []⟩

/-- The pattern and owners a line declares, or nothing for a blank line or a comment. -/
def lineRule (line : String) : Option CodeownersRule :=
  let trimmed := trim line
  if trimmed = "" ∨ "#".toList.isPrefixOf trimmed.toList then none
  else
    let parts := splitWhitespace trimmed
    some ⟨parts.headD "", (parts.drop 1).map fun o => String.mk (o.toList.erase '@')⟩

/-- One turn of the loop: a `*` rule replaces the root owners, any other rule is appended. -/
theorem parseLine_eq (c : Codeowners) (line : String) :
    parseLine c line = match lineRule line with
      | none => c
      | some r => if r.pattern = "*" then { c with rootOwners := r.owners } else { c with rules := c.rules ++ [r] } := by
  unfold parseLine lineRule
  dsimp only
  split_ifs <;> simp_all

/-- The loop from any state: every rule other than `*` is appended in file order, and the last `*`
rule, if any, gives the root owners. -/
theorem foldl_parseLine (lines : List String) (c : Codeowners) :
    lines.foldl parseLine c =
      ⟨c.rules ++ (lines.filterMap lineRule).filter (·.pattern ≠ "*"),
        (((lines.filterMap lineRule).filter (·.pattern = "*")).getLast?.map (·.owners)).getD c.rootOwners⟩ := by
  induction lines generalizing c with
  | nil => simp
  | cons line lines ih =>
    rw [List.foldl_cons, ih, parseLine_eq, List.filterMap_cons]
    cases lineRule line with
    | none => rfl
    | some r =>
      dsimp only
      by_cases hr : r.pattern = "*"
      · rw [if_pos hr, List.filter_cons, List.filter_cons, if_neg (by simp [hr]), if_pos (by simp [hr]),
          List.getLast?_cons]
        cases ((lines.filterMap lineRule).filter (·.pattern = "*")).getLast? <;> rfl
      · rw [if_neg hr, List.filter_cons, List.filter_cons, if_pos (by simp [hr]), if_neg (by simp [hr])]
        simp

/-- The rules of `CODEOWNERS` are, in file order, the lines that are neither blank, a comment nor a `*`
line; the root owners are those of the last `*` line, and none without one. -/
theorem parseCodeowners_eq (text : String) :
    parseCodeowners text =
      let entries := ((text.toList.splitOnP (· = '\n')).map String.mk).filterMap lineRule
      ⟨entries.filter (·.pattern ≠ "*"), ((entries.filter (·.pattern = "*")).getLast?.map (·.owners)).getD []⟩ := by
  rw [parseCodeowners, foldl_parseLine]
  rfl

/-! ### Choosing the rule -/

/-- `rule.pattern.replace(/\/$/, "")`. -/
def stripTrailingSlash (pattern : String) : String :=
  if pattern.toList.getLast? = some '/' then ⟨pattern.toList.dropLast⟩ else pattern

/-- `checkPath === pattern || checkPath.startsWith(pattern + "/")`, with the rule's trailing `/`
removed. -/
def ruleMatches (checkPath : String) (rule : CodeownersRule) : Bool :=
  let pattern := stripTrailingSlash rule.pattern
  checkPath == pattern || (pattern ++ "/").toList.isPrefixOf checkPath.toList

def pythonSuffix : String := "/python"

/-- The package path, then, for a path ending in `/python`, the path without it. -/
def pathsToCheck (pkg : String) : List String :=
  if pythonSuffix.toList.isSuffixOf pkg.toList then
    [pkg, ⟨pkg.toList.take (pkg.toList.length - pythonSuffix.length)⟩]
  else [pkg]

/-- The selection loop: for the first path that any rule matches, the first such rule in file
order. -/
def findMatchedRule (rules : List CodeownersRule) (pkg : String) : Option CodeownersRule :=
  (pathsToCheck pkg).findSome? fun checkPath => rules.find? (ruleMatches checkPath)

/-- The rule the script authorizes against, falling back to the root owners. -/
def matchedRule (c : Codeowners) (pkg : String) : CodeownersRule :=
  (findMatchedRule c.rules pkg).getD ⟨"*", c.rootOwners⟩

/-! ### Authorizing -/

/-- `isAuthorizedByOwners`: an owner with a `/` is an `org/team` whose membership `isTeamMember`
answers (the GitHub API, or `false` without `GITHUB_TOKEN`); any other owner is a user name. -/
def isAuthorizedByOwners (isTeamMember : String → String → String → Bool) (owners : List String)
    (username : String) : Bool :=
  owners.any fun owner =>
    if '/' ∈ owner.toList then
      let parts := (owner.toList.splitOnP (· = '/')).map String.mk
      isTeamMember (parts.getD 0 "") (parts.getD 1 "") username
    else owner = username

/-- The script's verdict, `true` when it does not `process.exit(1)`; an unset `ACTOR` or `PACKAGE`
is `""`. -/
def checkCodeownersAuth (isTeamMember : String → String → String → Bool)
    (codeowners actor pkg : String) : Bool :=
  if actor = "" ∨ pkg = "" then false
  else isAuthorizedByOwners isTeamMember (matchedRule (parseCodeowners codeowners) pkg).owners actor

/-! ### The rule used -/

/-- A rule matching a path also matches the path with `/python` appended. -/
theorem ruleMatches_append_python {q : String} {r : CodeownersRule} (h : ruleMatches q r) :
    ruleMatches ⟨q.toList ++ pythonSuffix.toList⟩ r := by
  simp only [ruleMatches, Bool.or_eq_true, beq_iff_eq, List.isPrefixOf_iff_prefix] at h ⊢
  right
  rcases h with rfl | h
  · exact List.prefix_append_right_inj _ |>.2 (by decide)
  · exact h.trans (List.prefix_append _ _)

theorem findMatchedRule_eq_find (rules : List CodeownersRule) (pkg : String) :
    findMatchedRule rules pkg = rules.find? (ruleMatches pkg) := by
  unfold findMatchedRule pathsToCheck
  split
  case isFalse => rw [List.findSome?_cons, List.findSome?_nil]; cases rules.find? _ <;> rfl
  case isTrue h =>
    obtain ⟨q, hq⟩ := List.isSuffixOf_iff_suffix.1 h
    have hstrip : (⟨pkg.toList.take (pkg.toList.length - pythonSuffix.length)⟩ : String) = ⟨q⟩ := by
      rw [← hq, show pythonSuffix.length = pythonSuffix.toList.length from rfl]; simp
    rw [hstrip, List.findSome?_cons]
    cases hp : rules.find? (ruleMatches pkg) with
    | some r => rfl
    | none =>
      simp only [List.findSome?_cons, List.findSome?_nil]
      rw [List.find?_eq_none.2 fun r hr hm => List.find?_eq_none.1 hp r hr (by
        have := ruleMatches_append_python hm; rwa [show (⟨q⟩ : String).toList = q from rfl, hq] at this)]

/-- The script uses the first rule in file order that matches `PACKAGE`, or the root owners. -/
theorem matchedRule_eq_find (c : Codeowners) (pkg : String) :
    matchedRule c pkg = (c.rules.find? (ruleMatches pkg)).getD ⟨"*", c.rootOwners⟩ := by
  rw [matchedRule, findMatchedRule_eq_find]

/-- What the comment over the loop asks for: a matching rule with no longer matching pattern. -/
def IsMostSpecific (rules : List CodeownersRule) (pkg : String) (r : CodeownersRule) : Prop :=
  r ∈ rules ∧ ruleMatches pkg r ∧
    ∀ r' ∈ rules, ruleMatches pkg r' →
      (stripTrailingSlash r'.pattern).length ≤ (stripTrailingSlash r.pattern).length

instance (rules : List CodeownersRule) (pkg : String) (r : CodeownersRule) :
    Decidable (IsMostSpecific rules pkg r) :=
  inferInstanceAs (Decidable (_ ∧ _ ∧ _))

/-- When the rules matching `PACKAGE` come narrowest first, the first of them is most specific. -/
theorem matchedRule_mostSpecific_of_sorted (c : Codeowners) (pkg : String)
    (hsorted : ((c.rules.filter (ruleMatches pkg)).map fun r => (stripTrailingSlash r.pattern).length).Sorted
      (· ≥ ·))
    (hm : ∃ r ∈ c.rules, ruleMatches pkg r) : IsMostSpecific c.rules pkg (matchedRule c pkg) := by
  rw [matchedRule_eq_find, ← List.filter_head?]
  obtain ⟨r₀, hr₀, hm₀⟩ := hm
  cases hf : c.rules.filter (ruleMatches pkg) with
  | nil => exact absurd (hf ▸ List.mem_filter.2 ⟨hr₀, hm₀⟩) (List.not_mem_nil _)
  | cons r rest =>
    have hr : r ∈ c.rules.filter (ruleMatches pkg) := hf ▸ List.mem_cons_self _ _
    rw [hf, List.map_cons, List.sorted_cons] at hsorted
    refine ⟨(List.mem_filter.1 hr).1, (List.mem_filter.1 hr).2, fun r' hr' hm' => ?_⟩
    rcases List.mem_cons.1 (hf ▸ List.mem_filter.2 ⟨hr', hm'⟩) with rfl | h
    · exact le_rfl
    · exact hsorted.1 _ (List.mem_map_of_mem _ h)

/-- With the narrow rule above the broad one, the script picks the narrow rule. -/
theorem matchedRule_mostSpecific_narrow_rule_first :
    IsMostSpecific (parseCodeowners "sdks/community/ruby @b\nsdks/ @a\n").rules "sdks/community/ruby"
      (matchedRule (parseCodeowners "sdks/community/ruby @b\nsdks/ @a\n") "sdks/community/ruby") :=
  matchedRule_mostSpecific_of_sorted _ _ (by decide) (by decide)

/-- With the broad rule above the narrow one, `sdks/community/ruby` is checked against the owners of
`sdks/`, which is not a most specific rule for it: `@a` passes and `@b` is refused. -/
theorem checkCodeownersAuth_broader_rule_first :
    matchedRule (parseCodeowners "sdks/ @a\nsdks/community/ruby @b\n") "sdks/community/ruby" = ⟨"sdks/", ["a"]⟩ ∧
      ¬ IsMostSpecific (parseCodeowners "sdks/ @a\nsdks/community/ruby @b\n").rules "sdks/community/ruby"
        ⟨"sdks/", ["a"]⟩ ∧
      IsMostSpecific (parseCodeowners "sdks/ @a\nsdks/community/ruby @b\n").rules "sdks/community/ruby"
        ⟨"sdks/community/ruby", ["b"]⟩ ∧
      checkCodeownersAuth (fun _ _ _ => false) "sdks/ @a\nsdks/community/ruby @b\n" "a" "sdks/community/ruby" = true ∧
      checkCodeownersAuth (fun _ _ _ => false) "sdks/ @a\nsdks/community/ruby @b\n" "b" "sdks/community/ruby" = false := by
  decide

end CheckCodeownersAuth

end AgUi
