import Mathlib.Data.List.Infix

/-!
# The clawg-ui endpoint check of the Kotlin chat app

`ClawgUiPairingService.isClawgUiEndpoint(url)` decides whether the chat app starts the clawg-ui pairing
flow for a URL.  It matches the whole URL against `Regex(".*/v1/clawg-ui.*")`, whose `.` matches any
character but a line terminator.

* `isClawgUiEndpoint_iff`: a URL passes exactly when `/v1/clawg-ui` occurs in it, anywhere (in the
  path, inside a longer segment such as `/v1/clawg-ui-admin`, or in the query), and it holds no line
  terminator.
-/

namespace AgUi

namespace ClawgUiPairing

/-- The characters `.` does not match: the line terminators of `java.util.regex.Pattern` (line feed,
carriage return, next line, line separator, paragraph separator). -/
def isLineTerminator (c : Char) : Bool :=
  c = '\n' || c = '\r' || c = '\x85' || c = '\u2028' || c = '\u2029'

/-- The literal part of the pattern. -/
def clawgUiPath : List Char := "/v1/clawg-ui".toList

/-- `Regex(".*/v1/clawg-ui.*").matches(url)`: the whole URL is some characters that are not line
terminators, `/v1/clawg-ui`, and some characters that are not line terminators; the first `.*` ends at
some position `i`. -/
def isClawgUiEndpoint (url : List Char) : Bool :=
  (List.range (url.length + 1)).any fun i =>
    (url.take i).all (fun c => !isLineTerminator c) && clawgUiPath.isPrefixOf (url.drop i) &&
      (url.drop (i + clawgUiPath.length)).all fun c => !isLineTerminator c

theorem isLineTerminator_of_mem_clawgUiPath {c : Char} (h : c ∈ clawgUiPath) : isLineTerminator c = false := by
  revert c h
  decide

/-- A URL passes exactly when `/v1/clawg-ui` occurs in it and it holds no line terminator. -/
theorem isClawgUiEndpoint_iff (url : List Char) :
    isClawgUiEndpoint url = true ↔ clawgUiPath <:+: url ∧ ∀ c ∈ url, isLineTerminator c = false := by
  constructor
  · intro h
    obtain ⟨i, -, h⟩ := List.any_eq_true.1 h
    simp only [Bool.and_eq_true, List.all_eq_true, Bool.not_eq_true'] at h
    obtain ⟨⟨hpre, hpath⟩, hpost⟩ := h
    have hdrop : url.drop i = clawgUiPath ++ url.drop (i + clawgUiPath.length) := by
      obtain ⟨t, ht⟩ := List.isPrefixOf_iff_prefix.1 hpath
      rw [← List.drop_drop, ← ht, List.drop_left]
    have hurl : url = url.take i ++ clawgUiPath ++ url.drop (i + clawgUiPath.length) := by
      rw [List.append_assoc, ← hdrop, List.take_append_drop]
    refine ⟨⟨_, _, hurl.symm⟩, fun c hc => ?_⟩
    rw [hurl, List.mem_append, List.mem_append] at hc
    rcases hc with (hc | hc) | hc
    exacts [hpre c hc, isLineTerminator_of_mem_clawgUiPath hc, hpost c hc]
  · rintro ⟨⟨s, t, rfl⟩, hall⟩
    refine List.any_eq_true.2 ⟨s.length, List.mem_range.2 (by simp; omega), ?_⟩
    simp only [List.append_assoc, List.take_left, List.drop_left, Bool.and_eq_true, List.all_eq_true,
      Bool.not_eq_true']
    refine ⟨⟨fun c hc => hall c (by simp [hc]), by simp [List.isPrefixOf_iff_prefix]⟩, ?_⟩
    rw [← List.drop_drop, List.drop_left, List.drop_left]
    exact fun c hc => hall c (by simp [hc])

example : isClawgUiEndpoint "https://example.com/v1/clawg-ui?foo=bar".toList = true := by decide

example : isClawgUiEndpoint "https://example.com/v1/clawgui".toList = false := by decide

example : isClawgUiEndpoint "https://example.com/v1/clawg-ui-admin".toList = true := by decide

end ClawgUiPairing

end AgUi
