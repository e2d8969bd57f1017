import Mathlib.Data.List.DropRight
import Mathlib.Data.List.Basic

/-!
# Ruby strings in the documentation template

The Ruby SDK's reference pages are written by a YARD template that builds each page as a string.
This module holds the string operations it uses, on the characters of a string (`String#strip`,
`Array#join("\n")`, `String#split("\n")` and the order of strings), and what a page is made of (`Block`).

* `splitNewline_joinLines`: splitting joined lines gives the lines back, without the empty ones at
  the end.
* `strip_joinLines_append_nil`: an empty last line changes nothing once the text is stripped.
-/

namespace AgUi

namespace DocTemplate

/-- `/\s/`: space, tab, line feed, vertical tab, form feed, carriage return. -/
def isSpace (c : Char) : Bool :=
  c = ' ' || c = '\t' || c = '\n' || c = '\x0b' || c = '\x0c' || c = '\r'

/-- What `String#strip` removes at either end: whitespace and the null character. -/
def isStripped (c : Char) : Bool := c = '\x00' || isSpace c

/-- `String#strip`. -/
def strip (s : List Char) : List Char := (s.dropWhile isStripped).rdropWhile isStripped

/-- `lines.join("\n")`. -/
def joinLines : List (List Char) → List Char
  | [] => []
  | [l] => l
  | l :: l' :: ls => l ++ '\n' :: joinLines (l' :: ls)

/-- `s.split("\n")`: the pieces between line feeds, without the empty pieces at the end. -/
def splitNewline (s : List Char) : List (List Char) := (s.splitOn '\n').rdropWhile List.isEmpty

/-- `a <= b` for Ruby strings (`String#<=>`, which `sort` and `sort_by` use): byte order, which for
UTF-8 text is the order of the code points. -/
def strLe : List Char → List Char → Bool
  | [], _ => true
  | _ :: _, [] => false
  | a :: as, b :: bs => if a = b then strLe as bs else a.toNat < b.toNat

theorem isStripped_of_isSpace {c : Char} (h : isSpace c) : isStripped c := by
  simp [isStripped, h]

theorem joinLines_eq_intercalate : ∀ ls : List (List Char), joinLines ls = ['\n'].intercalate ls
  | [] => rfl
  | [_] => by simp [joinLines, List.intercalate]
  | l :: l' :: ls => by
    rw [joinLines, joinLines_eq_intercalate (l' :: ls)]
    simp [List.intercalate, List.intersperse]

theorem joinLines_append_nil : ∀ {ls : List (List Char)}, ls ≠ [] → joinLines (ls ++ [[]]) = joinLines ls ++ ['\n']
  | [l], _ => by simp [joinLines]
  | l :: l' :: ls, _ => by
    have ih := joinLines_append_nil (List.cons_ne_nil l' ls)
    rw [List.cons_append] at ih
    rw [List.cons_append, List.cons_append, joinLines, ih, joinLines]
    simp

/-- Joining lines without line feeds and splitting the text again gives the lines back, but for the
empty lines at the end, which `split` drops. -/
theorem splitNewline_joinLines {ls : List (List Char)} (h : ∀ l ∈ ls, '\n' ∉ l) :
    splitNewline (joinLines ls) = ls.rdropWhile List.isEmpty := by
  rcases eq_or_ne ls [] with rfl | hne
  · rfl
  · rw [splitNewline, joinLines_eq_intercalate, List.splitOn_intercalate ls _ h hne]

theorem strip_append_of_isStripped (s : List Char) {c : Char} (hc : isStripped c) :
    strip (s ++ [c]) = strip s := by
  rw [strip, strip, List.dropWhile_append]
  split
  · rename_i hs
    rw [List.isEmpty_iff.1 hs, List.dropWhile_cons_of_pos hc]
    rfl
  · exact List.rdropWhile_concat_pos _ _ _ hc

theorem strip_joinLines_append_nil (ls : List (List Char)) : strip (joinLines (ls ++ [[]])) = strip (joinLines ls) := by
  rcases eq_or_ne ls [] with rfl | hne
  · rfl
  · rw [joinLines_append_nil hne, strip_append_of_isStripped _ (by decide)]

/-- A text that `strip` keeps as it is and that is not empty starts with a character `strip` keeps. -/
theorem not_isStripped_head_of_strip_eq {c : Char} {s : List Char} (h : strip (c :: s) = c :: s) :
    isStripped c = false := by
  cases hc : isStripped c
  · rfl
  · have hlen := congrArg List.length h
    rw [strip, List.dropWhile_cons_of_pos hc] at hlen
    have h1 := (List.rdropWhile_prefix (p := isStripped) (l := s.dropWhile isStripped)).length_le
    have h2 := (List.dropWhile_suffix isStripped (l := s)).length_le
    simp only [List.length_cons] at hlen
    omega

/-! ### Pages -/

/-- What a page appends to its output, by kind: a heading, the path of an object in code (`inline_code`),
or any other text. -/
inductive Block where
  | heading (level : Nat) (text : List Char)
  | code (path : List Char)
  | text (s : List Char)
  deriving DecidableEq, Repr

/-- The text a block appends: `heading(level, text)`, `"#{inline_code(path)}\n\n"`, or the text. -/
def Block.render : Block → List Char
  | heading level title => List.replicate level '#' ++ ' ' :: title ++ ['\n', '\n']
  | code path => "`".toList ++ path ++ "`\n\n".toList
  | text s => s

/-- The path of an object a block writes, if it is one. -/
def Block.codePath? : Block → Option (List Char)
  | code path => some path
  | _ => none

/-- The page: the text of its blocks, in order. -/
def Block.page (blocks : List Block) : List Char := blocks.flatMap Block.render

/-- The paths of the objects a page writes, in order. -/
def codePaths (blocks : List Block) : List (List Char) := blocks.filterMap Block.codePath?

@[simp] theorem codePaths_nil : codePaths [] = [] := rfl

@[simp] theorem codePaths_append (a b : List Block) : codePaths (a ++ b) = codePaths a ++ codePaths b :=
  List.filterMap_append _ _ _

@[simp] theorem codePaths_heading (level : Nat) (title : List Char) (bs : List Block) :
    codePaths (.heading level title :: bs) = codePaths bs := rfl

@[simp] theorem codePaths_code (path : List Char) (bs : List Block) :
    codePaths (.code path :: bs) = path :: codePaths bs := rfl

@[simp] theorem codePaths_text (s : List Char) (bs : List Block) : codePaths (.text s :: bs) = codePaths bs := rfl

@[simp] theorem codePaths_flatMap {α : Type} (l : List α) (f : α → List Block) :
    codePaths (l.flatMap f) = l.flatMap fun a => codePaths (f a) := by
  induction l with
  | nil => rfl
  | cons a l ih => simp [ih]

@[simp] theorem codePaths_map_text (ss : List (List Char)) : codePaths (ss.map .text) = [] := by
  induction ss <;> simp_all

/-- `frontmatter(title:, description:)`. -/
def frontmatter (title description : List Char) : List Char :=
  "---\ntitle: \"".toList ++ title ++ "\"\ndescription: \"".toList ++ description ++ "\"\n---\n\n".toList

/-- `page_header(out, path)`: the front matter, then the page's title as a first-level heading. -/
def pageHeader (title description documentTitle : List Char) : List Block :=
  [.text (frontmatter title description), .heading 1 documentTitle]

end DocTemplate

end AgUi
