import Calevate.Lib.DotSegments
import Mathlib.Data.List.TakeWhile

/-!
# The paths of a vendor request

Every adapter fills ids into the path of its request, and `assertSafeVendorPath` refuses a filled
path that could reach another endpoint. A vendor's own link is judged by its path alone, and what
makes a text a link is a `://` anywhere in it. A path of the root with such a mark inside an id is
judged from behind the mark on, so that what an accepted path keeps of the template hangs on what
the cut leaves out (`kept_iff`); a dot segment there steers the request (`cutId_steers`).
-/

namespace Calevate

namespace Engine

open Lib.DotSegments

/-! ## The guard -/

/-- `_DOT_SEGMENTS` -/
def dotSegments : List (List Char) :=
  [['.'], ['.', '.'], ['%', '2', 'e'], ['%', '2', 'e', '%', '2', 'e'], ['.', '%', '2', 'e'],
    ['%', '2', 'e', '.']]

/-- `_PATH_BREAKERS`: the query and fragment marks, the backslash, the space and the control
characters. -/
def isPathBreaker (c : Char) : Bool :=
  c == '?' || c == '#' || c == '\\' || decide (c.toNat ≤ 0x20) || c.toNat == 0x7f

/-- `path.split("://", 1)` -/
def cutScheme : List Char → Option (List Char × List Char)
  | ':' :: '/' :: '/' :: after => some ([], after)
  | [] => none
  | c :: path => (cutScheme path).map fun cut => (c :: cut.1, cut.2)

/-- What stands ahead of the first slash, a link's host. -/
def host (after : List Char) : List Char := after.takeWhile (· ≠ '/')

/-- `after.partition("/")[2]` -/
def behindHost (after : List Char) : List Char := (after.dropWhile (· ≠ '/')).drop 1

/-- `text.split("?", 1)[0].split("#", 1)[0]` -/
def withoutQuery (text : List Char) : List Char := (text.takeWhile (· ≠ '?')).takeWhile (· ≠ '#')

/-- The `target` that is judged. -/
def target (path : List Char) : List Char :=
  match cutScheme path with
  | none => path
  | some cut => '/' :: withoutQuery (behindHost cut.2)

/-- The judged text has a breaker or a dot segment. -/
def unsafeText (text : List Char) : Bool :=
  text.any isPathBreaker || (text.splitOn '/').any fun s => dotSegments.contains (s.map Char.toLower)

/-- What the refusal says. -/
structure PathRefusal where
  kind : String
  code : String
  title : String
  detail : String
  failureStage : String
  remediation : String
  deriving DecidableEq

def enginePathRefused : PathRefusal where
  kind := "internal"
  code := "engine_path_refused"
  title := "Calevate stopped a voice platform call before it went out"
  detail := "A stored id was not one the voice platform could have issued."
  failureStage := "CORE_LOGIC"
  remediation := "Check the stored ids for this object; nothing was sent."

/-- `assert_safe_vendor_path` -/
def assertSafeVendorPath (path : List Char) : Except PathRefusal Unit :=
  if unsafeText (target path) then .error enginePathRefused else .ok ()

/-! ## Clean texts -/

/-- The listed spellings are the dot segments. -/
theorem isDots_iff (s : List Char) : IsDots s ↔ s.map Char.toLower ∈ dotSegments := by
  constructor
  · rintro (h | h)
    · obtain ⟨d, hd, s', rfl, hs'⟩ := dots?_succ h
      rw [dots?_zero hs']
      simp only [List.mem_cons, List.not_mem_nil, or_false] at hd
      rcases hd with rfl | rfl | rfl <;> decide
    · obtain ⟨d, hd, s', rfl, hs'⟩ := dots?_succ h
      obtain ⟨d', hd', s'', rfl, hs''⟩ := dots?_succ hs'
      rw [dots?_zero hs'']
      simp only [List.mem_cons, List.not_mem_nil, or_false] at hd hd'
      rcases hd with rfl | rfl | rfl <;> rcases hd' with rfl | rfl | rfl <;> decide
  · intro h
    have hread : ∀ t ∈ dotSegments, IsDots t := by decide
    exact (hread _ h).imp dots?_of_lowered dots?_of_lowered

theorem unsafeText_eq_false_iff (text : List Char) : unsafeText text = false ↔
    (∀ c ∈ text, isPathBreaker c = false) ∧ ∀ s ∈ text.splitOn '/', ¬ IsDots s := by
  simp only [unsafeText, Bool.or_eq_false_iff, List.any_eq_false, Bool.not_eq_true, isDots_iff,
    List.contains_eq_mem, decide_eq_false_iff_not]

/-- A text is judged piece by piece. -/
theorem unsafeText_append_slash (a b : List Char) : unsafeText (a ++ '/' :: b) = false ↔
    unsafeText a = false ∧ unsafeText b = false := by
  have hslash : isPathBreaker '/' = false := by decide
  simp only [unsafeText_eq_false_iff, List.splitOn_append_cons_self, List.forall_mem_append,
    List.forall_mem_cons, hslash, true_and]
  tauto

theorem unsafeText_slash (t : List Char) :
    unsafeText ('/' :: t) = false ↔ unsafeText t = false := by
  rw [← List.nil_append ('/' :: t), unsafeText_append_slash]
  exact and_iff_right (by decide)

/-! ## The cut -/

/-- The cut's two parts, and the mark between them. -/
theorem eq_of_cutScheme {path before after : List Char}
    (h : cutScheme path = some (before, after)) :
    path = (before ++ [':']) ++ '/' :: ([] ++ '/' :: after) := by
  revert h
  fun_induction cutScheme path generalizing before with
  | case1 rest =>
    intro h
    obtain ⟨rfl, rfl⟩ := Prod.mk.inj (Option.some.inj h)
    rfl
  | case2 => intro h; exact absurd h nofun
  | case3 c path hmark ih =>
    intro h
    obtain ⟨cut, hcut, heq⟩ := Option.map_eq_some_iff.mp h
    obtain ⟨rfl, rfl⟩ := Prod.mk.inj heq
    rw [ih hcut]
    rfl

/-- A link is its host, or its host and what stands behind the slash. -/
theorem host_behindHost (after : List Char) : (after = host after ∧ behindHost after = []) ∨
    after = host after ++ '/' :: behindHost after := by
  have hparts : host after ++ after.dropWhile (· ≠ '/') = after :=
    List.takeWhile_append_dropWhile
  cases hrest : after.dropWhile (· ≠ '/') with
  | nil => exact .inl ⟨by rw [hrest, List.append_nil] at hparts; exact hparts.symm,
      by rw [behindHost, hrest]; rfl⟩
  | cons c rest =>
    have hc := List.head?_dropWhile_not (fun c => decide (c ≠ '/')) after
    rw [hrest] at hc
    have hslash : c = '/' := by simpa using hc
    right
    rw [behindHost, hrest, List.drop_one, List.tail_cons, ← hslash, ← hrest, hparts]

/-- A link is judged by its host and by what stands behind it. -/
theorem unsafeText_after (after : List Char) : unsafeText after = false ↔
    unsafeText (host after) = false ∧ unsafeText (behindHost after) = false := by
  rcases host_behindHost after with ⟨hhost, hbehind⟩ | hparts
  · rw [← hhost, hbehind]
    exact (and_iff_left (by decide)).symm
  · rw [← unsafeText_append_slash, ← hparts]

theorem takeWhile_of_notMem {text : List Char} {mark : Char} (h : mark ∉ text) :
    text.takeWhile (· ≠ mark) = text := by
  rw [List.takeWhile_eq_self_iff]
  exact fun c hc => decide_eq_true fun heq => h (heq ▸ hc)

theorem withoutQuery_of_notMem {text : List Char} (h : '?' ∉ text) (h' : '#' ∉ text) :
    withoutQuery text = text := by
  rw [withoutQuery, takeWhile_of_notMem h, takeWhile_of_notMem h']

/-! ## Kept paths -/

/-- The path a request for this text reaches. -/
def reached (text : List Char) : List Char := removeDotSegments (withoutQuery text)

/-- The path goes out as it was filled in. -/
structure Kept (path : List Char) : Prop where
  unchanged : removeDotSegments path = path
  plain : ∀ c ∈ path, c ≠ '?' ∧ c ≠ '#' ∧ c ≠ '\\' ∧ 0x20 < c.toNat ∧ c.toNat ≠ 0x7f
  leads : ∀ lead, lead <+: path → lead <+: reached path

/-- What the pattern leaves. -/
theorem isPathBreaker_eq_false_iff (c : Char) : isPathBreaker c = false ↔
    c ≠ '?' ∧ c ≠ '#' ∧ c ≠ '\\' ∧ 0x20 < c.toNat ∧ c.toNat ≠ 0x7f := by
  simp only [isPathBreaker, Bool.or_eq_false_iff, beq_eq_false_iff_ne, decide_eq_false_iff_not,
    Nat.not_le, and_assoc]

/-- A path goes out as it was filled in just if the whole of it is clean. -/
theorem kept_iff_clean (t : List Char) : Kept ('/' :: t) ↔ unsafeText ('/' :: t) = false := by
  rw [unsafeText_slash, unsafeText_eq_false_iff, ← removeDotSegments_eq_iff]
  have hslash : isPathBreaker '/' = false := by decide
  constructor
  · intro h
    exact ⟨fun c hc => (isPathBreaker_eq_false_iff c).mpr (h.plain c (List.mem_cons_of_mem _ hc)),
      h.unchanged⟩
  · rintro ⟨hplain, hunchanged⟩
    have hall : ∀ c ∈ '/' :: t, c ≠ '?' ∧ c ≠ '#' ∧ c ≠ '\\' ∧ 0x20 < c.toNat ∧ c.toNat ≠ 0x7f :=
      fun c hc => (isPathBreaker_eq_false_iff c).mp
        ((List.mem_cons.mp hc).elim (fun heq => heq ▸ hslash) (hplain c))
    refine ⟨hunchanged, hall, fun lead hlead => ?_⟩
    -- nothing is cut off at a mark, and nothing is removed
    rw [reached, withoutQuery_of_notMem (fun hin => (hall _ hin).1 rfl)
      fun hin => (hall _ hin).2.1 rfl, hunchanged]
    exact hlead

/-- **What an accepted path keeps hangs on what the cut leaves out**: on the text ahead of the
mark, on the host behind it and on what follows a query or fragment mark. -/
theorem kept_iff (t : List Char) (h : assertSafeVendorPath ('/' :: t) = .ok ()) :
    Kept ('/' :: t) ↔ ∀ before after, cutScheme ('/' :: t) = some (before, after) →
      unsafeText (before ++ [':']) = false ∧ unsafeText (host after) = false ∧
        '?' ∉ behindHost after ∧ '#' ∉ behindHost after := by
  have hjudged : unsafeText (target ('/' :: t)) = false := by
    by_contra hbad
    rw [assertSafeVendorPath, if_pos (Bool.not_eq_false _ ▸ hbad)] at h
    exact absurd h nofun
  rw [kept_iff_clean]
  cases hcut : cutScheme ('/' :: t) with
  | none =>
    rw [target, hcut] at hjudged
    exact iff_of_true hjudged nofun
  | some cut =>
    obtain ⟨before, after⟩ := cut
    rw [target, hcut, unsafeText_slash] at hjudged
    have hpieces : unsafeText ('/' :: t) = false ↔
        unsafeText (before ++ [':']) = false ∧ unsafeText after = false := by
      rw [eq_of_cutScheme hcut, unsafeText_append_slash, unsafeText_append_slash]
      exact and_congr_right fun _ => and_iff_right (by decide)
    rw [hpieces]
    constructor
    · rintro ⟨hbefore, hafter⟩ _ _ ⟨rfl, rfl⟩
      have hrest := (unsafeText_after after).mp hafter
      have hplain := ((unsafeText_eq_false_iff _).mp hrest.2).1
      exact ⟨hbefore, hrest.1, fun hin => absurd (hplain _ hin) (by decide),
        fun hin => absurd (hplain _ hin) (by decide)⟩
    · intro hclean
      obtain ⟨hbefore, hhost, hquery, hfragment⟩ := hclean before after rfl
      dsimp only at hjudged
      rw [withoutQuery_of_notMem hquery hfragment] at hjudged
      exact ⟨hbefore, (unsafeText_after after).mpr ⟨hhost, hjudged⟩⟩

/-- A plain id keeps the template. -/
theorem kept_iff_agent : Kept ('/' :: "agents/a1".toList) := by
  have hcut : cutScheme ('/' :: "agents/a1".toList) = none := by decide
  refine (kept_iff _ (by decide)).mpr fun before after h => ?_
  rw [hcut] at h
  exact absurd h nofun

/-- An id with the mark in it hides the steps up ahead of it. -/
def cutId : List Char := "contacts/../agents/x://h".toList

/-- The path that is sent for it lies outside the template. -/
theorem cutId_steers : ¬ ∀ t : List Char, assertSafeVendorPath ('/' :: t) = .ok () →
    Kept ('/' :: t) := by
  intro hall
  have hclean := (kept_iff_clean cutId).mp (hall cutId (by decide))
  exact absurd hclean (by decide)

end Engine

end Calevate
