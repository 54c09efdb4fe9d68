-- SUMMARY: The names of variables, in a program and in a query, do not matter to what is found.
import Mathlib.Data.Set.Function
import OntoLogic.Proofs.Resolution.Index
import OntoLogic.Proofs.Resolution.Lockstep

/-!
# Names of variables

The variables of each clause of a program may be renamed, each clause in its own way and without
regard to the names in other clauses or in queries. As long as different variables stay different,
the clause stays a variant of what it was, so every search goes on in lockstep and finds the same
values. When the variables of the query are renamed as well, its solutions report the same values
under the new names.
-/

namespace OntoLogic

/-- A renaming of some variables. Different ones stay different, and all of them get names that a
text may have. -/
structure Renames (f : String → String) (xs : List String) : Prop where
  injective : ∀ x ∈ xs, ∀ y ∈ xs, f x = f y → x = y
  isSource : ∀ x ∈ xs, IsSource (f x)

variable {f : String → String} {xs ys : List String} {x y : String}

theorem Renames.mono (h : Renames f xs) (hsub : ∀ x ∈ ys, x ∈ xs) : Renames f ys where
  injective x hx y hy := h.injective x (hsub x hx) y (hsub y hy)
  isSource x hx := h.isSource x (hsub x hx)

/-- A renaming can be undone. -/
theorem Renames.exists_inverse (h : Renames f xs) :
    ∃ f' : String → String, ∀ x ∈ xs, f' (f x) = x := by
  have hinj : Set.InjOn f {x | x ∈ xs} := fun x hx y hy => h.injective x hx y hy
  exact ⟨Function.invFunOn f {x | x ∈ xs}, fun x hx => hinj.leftInvOn_invFunOn hx⟩

/-- Renaming commutes with removing repetitions. -/
theorem Renames.eraseDups_map (h : Renames f xs) : (xs.map f).eraseDups = xs.eraseDups.map f := by
  induction xs using eraseDups_induct with
  | nil => rfl
  | cons x xs ih =>
    have hrest : Renames f (xs.filter fun y => !y == x) :=
      h.mono fun y hy => List.mem_cons_of_mem x (List.mem_filter.mp hy).1
    have hfilter : (xs.map f).filter (fun y => !y == f x) = (xs.filter fun y => !y == x).map f := by
      rw [List.filter_map]
      congr 1
      apply List.filter_congr
      intro y hy
      have hiff : f y = f x ↔ y = x :=
        ⟨h.injective y (List.mem_cons_of_mem x hy) x List.mem_cons_self, congrArg f⟩
      simp [hiff]
    rw [List.map_cons, List.eraseDups_cons, List.eraseDups_cons, List.map_cons, hfilter, ih hrest]

/-! ## Renamed terms and goals -/

def Term.mapVars (f : String → String) (t : Term) : Term :=
  t.subst fun x => .var (f x)

def Goal.mapVars (f : String → String) (g : Goal) : Goal :=
  g.subst fun x => .var (f x)

theorem Term.mapVars_subst (t : Term) (θ : Assignment) :
    (t.mapVars f).subst θ = t.subst fun x => θ (f x) :=
  t.subst_subst

theorem Term.occurrences_mapVars (t : Term) : (t.mapVars f).occurrences = t.occurrences.map f :=
  t.occurrences_subst.trans List.map_eq_flatMap.symm

theorem Goal.mapVars_subst (g : Goal) (θ : Assignment) :
    (g.mapVars f).subst θ = g.subst fun x => θ (f x) :=
  g.subst_subst

theorem Goal.occurrences_mapVars (g : Goal) : (g.mapVars f).occurrences = g.occurrences.map f :=
  g.occurrences_subst.trans List.map_eq_flatMap.symm

theorem Goal.FromText.mapVars {g : Goal} (h : g.FromText) (hf : Renames f g.occurrences) :
    (g.mapVars f).FromText where
  isCallable := Goal.isCallable_subst h.isCallable
  isSource x hx := by
    obtain ⟨y, hy, rfl⟩ := List.mem_map.mp (g.occurrences_mapVars ▸ hx)
    exact hf.isSource y hy

/-- Renamed goals have the instances of the goals. -/
theorem map_mapVars_subst (goals : List Goal) (θ : Assignment) :
    (goals.map (Goal.mapVars f)).map (Goal.subst θ) = goals.map (Goal.subst fun x => θ (f x)) := by
  rw [List.map_map]
  exact List.map_congr_left fun g _ => g.mapVars_subst θ

/-- Goals have the instances of the renamed goals when the renaming can be undone. -/
theorem map_mapVars_subst_inverse {f' : String → String} {goals : List Goal}
    (h : ∀ x ∈ goals.flatMap Goal.occurrences, f' (f x) = x) (θ : Assignment) :
    (goals.map (Goal.mapVars f)).map (Goal.subst fun x => θ (f' x)) = goals.map (Goal.subst θ) := by
  rw [map_mapVars_subst]
  refine List.map_congr_left fun g hg => Goal.subst_congr fun x hx => ?_
  rw [h x (List.mem_flatMap.mpr ⟨g, hg, hx⟩)]

/-! ## Renamed clauses -/

namespace Clause

def occurrences (c : Clause) : List String :=
  c.head.occurrences ++ c.body.flatMap Goal.occurrences

def mapVars (f : String → String) (c : Clause) : Clause where
  head := c.head.mapVars f
  body := c.body.map (Goal.mapVars f)

variable {c c' : Clause}

theorem mapVars_covers (f : String → String) (c : Clause) : (c.mapVars f).Covers c :=
  fun θ => ⟨fun x => θ (f x), c.head.mapVars_subst θ, map_mapVars_subst c.body θ⟩

theorem covers_mapVars (h : Renames f c.occurrences) : c.Covers (c.mapVars f) := by
  intro θ
  obtain ⟨f', hf'⟩ := h.exists_inverse
  obtain ⟨hhead, hbody⟩ := List.forall_mem_append.mp hf'
  refine ⟨fun x => θ (f' x), ?_, (map_mapVars_subst_inverse hbody θ).symm⟩
  rw [mapVars, Term.mapVars_subst]
  exact Term.subst_congr fun x hx => by rw [hhead x hx]

theorem FromText.mapVars (h : c.FromText) (hf : Renames f c.occurrences) :
    (c.mapVars f).FromText where
  callable := by
    rw [Clause.mapVars, Term.mapVars, Term.isSome_functor?_subst h.callable]
    exact h.callable
  head x hx := by
    obtain ⟨y, hy, rfl⟩ := List.mem_map.mp (c.head.occurrences_mapVars ▸ hx)
    exact hf.isSource y (List.mem_append_left _ hy)
  body g hg := by
    obtain ⟨g', hg', rfl⟩ := List.mem_map.mp hg
    refine (h.body g' hg').mapVars (hf.mono fun x hx => ?_)
    exact List.mem_append_right _ (List.mem_flatMap.mpr ⟨g', hg', hx⟩)

/-- A renamed clause is a variant of the clause. -/
theorem FromText.variants_mapVars (h : c.FromText) (hf : Renames f c.occurrences) :
    c.Variants (c.mapVars f) :=
  ⟨h, h.mapVars hf, covers_mapVars hf, mapVars_covers f c⟩

theorem FromText.variants_self (h : c.FromText) : c.Variants c :=
  ⟨h, h, .refl c, .refl c⟩

/-- Variants belong to one predicate. -/
theorem Variants.functor? (h : c.Variants c') : c'.head.functor? = c.head.functor? := by
  obtain ⟨θ', hhead, -⟩ := h.covers .var
  rw [Term.subst_var_self] at hhead
  rw [hhead, Term.isSome_functor?_subst h.fromText'.callable]

end Clause

/-! ## Renamed queries -/

/-- A goal in which some variables stand and nothing else. -/
def Goal.ofVars (names : List String) : Goal :=
  .call (.compound "" (names.map .var))

theorem Goal.mapVars_ofVars (names : List String) :
    (Goal.ofVars names).mapVars f = .ofVars (names.map f) := by
  simp [ofVars, mapVars, Goal.subst]

theorem Goal.occurrences_ofVars (names : List String) :
    (Goal.ofVars names).occurrences = names := by
  simp [ofVars, Goal.occurrences, List.flatMap_map]

theorem Goal.subst_ofVars_inj {names : List String} {σ σ' : Assignment} :
    (Goal.ofVars names).subst σ = (Goal.ofVars (names.map f)).subst σ' ↔
      ∀ x ∈ names, σ x = σ' (f x) := by
  simp [ofVars, Goal.subst]

namespace Query

def mapVars (f : String → String) (q : Query) : Query where
  goals := q.goals.map (Goal.mapVars f)

/-- A query with one more goal, in which the visible variables stand. -/
def reporting (q : Query) : Query where
  goals := q.goals ++ [.ofVars q.visibleVars]

variable {q : Query}

theorem mapVars_id (q : Query) : q.mapVars id = q := by
  have hgoals : q.goals.map (Goal.mapVars id) = q.goals.map id :=
    List.map_congr_left fun g _ => g.subst_var_self
  rw [mapVars, hgoals, List.map_id]

/-- The variables of a query that has been read may keep their names. -/
theorem renames_id (h : ∀ g ∈ q.goals, g.FromText) : Renames id q.vars where
  injective _ _ _ _ heq := heq
  isSource x hx := by
    obtain ⟨g, hg, hxg⟩ := mem_vars.mp hx
    exact (h g hg).isSource x hxg

theorem vars_mapVars (h : Renames f q.vars) : (q.mapVars f).vars = q.vars.map f := by
  have hf : Renames f (q.goals.flatMap Goal.occurrences) :=
    h.mono fun x hx => List.mem_eraseDups.mpr hx
  have hoccurrences : (q.mapVars f).goals.flatMap Goal.occurrences =
      (q.goals.flatMap Goal.occurrences).map f := by
    rw [mapVars, List.flatMap_map, List.map_flatMap]
    exact List.flatMap_congr fun g _ => g.occurrences_mapVars
  rw [vars, hoccurrences, hf.eraseDups_map, vars]

theorem visibleVars_mapVars (h : Renames f q.vars)
    (hvisible : ∀ x ∈ q.vars, isVisible (f x) = isVisible x) :
    (q.mapVars f).visibleVars = q.visibleVars.map f := by
  rw [visibleVars, vars_mapVars h, List.filter_map, visibleVars]
  congr 1
  exact List.filter_congr hvisible

theorem reporting_mapVars (h : Renames f q.vars)
    (hvisible : ∀ x ∈ q.vars, isVisible (f x) = isVisible x) :
    (q.mapVars f).reporting = q.reporting.mapVars f := by
  rw [reporting, visibleVars_mapVars h hvisible, ← Goal.mapVars_ofVars]
  simp [reporting, mapVars]

/-- The additional goal has no variables that the query does not have. -/
theorem mem_vars_of_reporting (hx : x ∈ q.reporting.goals.flatMap Goal.occurrences) :
    x ∈ q.vars := by
  rw [reporting, List.flatMap_append, List.mem_append, List.flatMap_singleton,
    Goal.occurrences_ofVars] at hx
  rcases hx with hx | hx
  · exact List.mem_eraseDups.mpr hx
  · exact (List.mem_filter.mp hx).1

end Query

/-! ## Renamed solutions -/

def Solution.mapNames (f : String → String) (x : Solution) : Solution where
  bindings := x.bindings.map fun b => { b with name := f b.name }

def Solutions.mapNames (f : String → String) (found : Solutions) : Solutions :=
  { found with solutions := found.solutions.map (Solution.mapNames f) }

theorem Solutions.mapNames_id (found : Solutions) : found.mapNames id = found := by
  have hsolution : Solution.mapNames id = id := by
    funext x
    simp [Solution.mapNames]
  simp [mapNames, hsolution]

namespace Search

variable {bounds : Bounds} {query : Query} {a a' : Substitution} {names : List String}

/-- The solutions that a search with some result reports. -/
def solutions (names : List String) (result : Flow × State) : Solutions where
  solutions := result.2.answers.reverse.map (Solution.ofAnswer names)
  truncated := result.2.truncated || result.1 == .stop

/-- The searches of a query and of the renamed query start at alike nodes. -/
theorem alike_start (h : Renames f (query.goals.flatMap Goal.occurrences)) :
    Alike [] (Node.start bounds query) (Node.start bounds (query.mapVars f)) := by
  obtain ⟨f', hf'⟩ := h.exists_inverse
  constructor
  · intro σ _
    exact ⟨fun x => σ (f' x), Substitution.satisfies_empty,
      (map_mapVars_subst_inverse hf' σ).symm, by simp⟩
  · intro σ _
    exact ⟨fun x => σ (f x), Substitution.satisfies_empty, map_mapVars_subst query.goals σ, by simp⟩

/-- The searches start in lockstep, with the visible variables kept in view. -/
theorem lockstep_start (hquery : ∀ g ∈ query.goals, g.FromText) (hf : Renames f query.vars)
    (hvisible : ∀ x ∈ query.vars, Query.isVisible (f x) = Query.isVisible x) :
    Lockstep [.ofVars query.visibleVars] [.ofVars (query.mapVars f).visibleVars]
      (Node.start bounds query) (Node.start bounds (query.mapVars f)) := by
  have hreporting : Renames f (query.reporting.goals.flatMap Goal.occurrences) :=
    hf.mono fun x => Query.mem_vars_of_reporting
  have hfrom : ∀ g ∈ query.reporting.goals, g.FromText := by
    refine List.forall_mem_append.mpr ⟨hquery, List.forall_mem_singleton.mpr ⟨rfl, ?_⟩⟩
    intro x hx
    rw [Goal.occurrences_ofVars] at hx
    obtain ⟨-, g, hg, hxg⟩ := Query.mem_visibleVars.mp hx
    exact (hquery g hg).isSource x hxg
  have hfrom' : ∀ g ∈ (query.reporting.mapVars f).goals, g.FromText := by
    intro g hg
    obtain ⟨g', hg', rfl⟩ := List.mem_map.mp hg
    exact (hfrom g' hg').mapVars (hreporting.mono fun x hx => List.mem_flatMap.mpr ⟨g', hg', hx⟩)
  have halike : Alike [] (Node.start bounds query.reporting)
      (Node.start bounds (query.reporting.mapVars f)) := alike_start hreporting
  rw [← Query.reporting_mapVars hf hvisible] at halike hfrom'
  exact ⟨rfl, (List.length_map _).symm, halike, Node.valid_start hfrom, Node.valid_start hfrom',
    ⟨rfl, rfl, rfl, .nil⟩⟩

/-- Answers that give variables the same values under two names are reported with these values. -/
theorem SameValues.ofAnswer_eq
    (h : SameValues [.ofVars names] [.ofVars (names.map f)] a a') :
    Solution.ofAnswer (names.map f) a' = (Solution.ofAnswer names a).mapNames f := by
  have hvalue : ∀ x ∈ names,
      (a.resolve (.var x)).anonymize = (a'.resolve (.var (f x))).anonymize := by
    intro x hx
    refine anonymize_resolve_eq h.wellFormed h.wellFormed' (fun σ hσ => ?_) fun σ' hσ' => ?_
    · obtain ⟨σ', hσ', hgoals, -⟩ := h.alike.covers σ hσ
      exact ⟨σ', hσ', Goal.subst_ofVars_inj.mp (List.cons.inj hgoals).1 x hx⟩
    · obtain ⟨σ, hσ, hgoals, -⟩ := h.alike.covered σ' hσ'
      exact ⟨σ, hσ, (Goal.subst_ofVars_inj.mp (List.cons.inj hgoals).1.symm x hx).symm⟩
  simp only [Solution.ofAnswer, Solution.mapNames, List.map_map]
  congr 1
  apply List.map_congr_left
  intro x hx
  simp only [Function.comp_apply, hvalue x hx]

theorem ofAnswers_eq {answers answers' : List Substitution}
    (h : List.Forall₂ (SameValues [.ofVars names] [.ofVars (names.map f)]) answers answers') :
    answers'.map (Solution.ofAnswer (names.map f)) =
      (answers.map (Solution.ofAnswer names)).map (Solution.mapNames f) := by
  induction h with
  | nil => rfl
  | cons hfirst _ ih => rw [List.map_cons, List.map_cons, List.map_cons, hfirst.ofAnswer_eq, ih]

/-- Searches that have ended alike report the same solutions, under the new names. -/
theorem Agree.solutions_eq {result result' : Flow × State}
    (h : Agree [.ofVars names] [.ofVars (names.map f)] result result') :
    solutions (names.map f) result' = (solutions names result).mapNames f := by
  have hanswers := ofAnswers_eq h.state.answers
  simp only [solutions, Solutions.mapNames, List.map_reverse, hanswers, h.flow, h.state.truncated]

end Search

/-! ## Renamed programs -/

namespace Theory

variable {texts : List String} {text : String} {theory theory' : Theory} {query : Query}
  {names : Nat → String → String} {bounds : Bounds}

/-- Renames the variables of each clause of a theory, which is given with its position. -/
def mapVars (names : Nat → String → String) (theory : Theory) : Theory :=
  let clauses := theory.clauses.mapIdx fun i c => c.mapVars (names i)
  { texts := clauses.toList.map Clause.text
    clauses := clauses
    index := indexOf clauses.toList.zipIdx }

theorem candidates_variants (hindex : theory.index = indexOf theory.clauses.toList.zipIdx)
    (hindex' : theory'.index = indexOf theory'.clauses.toList.zipIdx)
    (h : List.Forall₂ Clause.Variants theory.clauses.toList theory'.clauses.toList)
    (key : Indicator) :
    List.Forall₂ Clause.Variants (theory.candidates key) (theory'.candidates key) := by
  rw [candidates_of_index hindex, candidates_of_index hindex']
  refine List.rel_filter (fun c c' hc => ?_) h
  simp [hc.functor?]

/-- The clauses of a renamed theory are variants of the clauses of the theory. -/
theorem variants_mapVars (hprogram : ∀ c ∈ theory.clauses.toList, c.FromText)
    (hnames : ∀ i c, theory.clauses[i]? = some c → Renames (names i) c.occurrences) :
    List.Forall₂ Clause.Variants theory.clauses.toList (theory.mapVars names).clauses.toList := by
  refine List.forall₂_iff_get.mpr ⟨by simp [mapVars], fun i hi hi' => ?_⟩
  have hc : theory.clauses[i]? = some (theory.clauses.toList.get ⟨i, hi⟩) := by simp
  simpa [mapVars] using (hprogram _ (List.get_mem _ _)).variants_mapVars (hnames i _ hc)

/-- Over variants of the clauses the renamed query has the renamed solutions. -/
theorem solve_of_variants
    (hcandidates : ∀ key, List.Forall₂ Clause.Variants (theory.candidates key)
      (theory'.candidates key))
    (hquery : ∀ g ∈ query.goals, g.FromText) (hf : Renames f query.vars)
    (hvisible : ∀ x ∈ query.vars, Query.isVisible (f x) = Query.isVisible x) :
    theory'.solve bounds (query.mapVars f) = (theory.solve bounds query).mapNames f := by
  have hagree : Search.Agree [.ofVars query.visibleVars] [.ofVars (query.mapVars f).visibleVars]
      (Search.run theory bounds query) (Search.run theory' bounds (query.mapVars f)) :=
    Search.prove_lockstep hcandidates _ _ _ _ _ _ _ (Search.lockstep_start hquery hf hvisible)
  rw [Query.visibleVars_mapVars hf hvisible] at hagree
  have hsolutions := hagree.solutions_eq
  rwa [← Query.visibleVars_mapVars hf hvisible] at hsolutions

/-- The names of variables do not matter. When the variables of each clause are renamed, a query has
the same solutions in the same order, and they are cut short at the same place. When the variables
of the query are renamed, and visible ones stay visible and hidden ones hidden, its solutions only
report their values under the new names. -/
theorem solve_mapVars (hload : load texts = .ok theory) (hparse : Query.parse text = .ok query)
    (hnames : ∀ i c, theory.clauses[i]? = some c → Renames (names i) c.occurrences)
    (hf : Renames f query.vars)
    (hvisible : ∀ x ∈ query.vars, Query.isVisible (f x) = Query.isVisible x) (bounds : Bounds) :
    (theory.mapVars names).solve bounds query = theory.solve bounds query ∧
    theory.solve bounds (query.mapVars f) = (theory.solve bounds query).mapNames f ∧
    ∀ texts' theory', load texts' = .ok theory' →
      theory'.clauses = (theory.mapVars names).clauses →
      theory'.solve bounds query = theory.solve bounds query ∧
      theory'.solve bounds (query.mapVars f) = (theory.solve bounds query).mapNames f := by
  obtain ⟨hprogram, hindex⟩ := load_cases hload
  have hquery := Query.parse_fromText text query hparse
  have hself : List.Forall₂ Clause.Variants theory.clauses.toList theory.clauses.toList :=
    List.forall₂_same.mpr fun c hc => (hprogram c hc).variants_self
  have hvariants := variants_mapVars hprogram hnames
  have hid : Renames id query.vars := Query.renames_id hquery
  -- With its own names a query has the same solutions over variants of the clauses.
  have hsame : ∀ theory' : Theory, theory'.index = indexOf theory'.clauses.toList.zipIdx →
      theory'.clauses = (theory.mapVars names).clauses →
      theory'.solve bounds query = theory.solve bounds query := by
    intro theory' hindex' hclauses
    have hcandidates := candidates_variants hindex hindex' (hclauses ▸ hvariants)
    have hsolve : theory'.solve bounds (query.mapVars id) =
        (theory.solve bounds query).mapNames id :=
      solve_of_variants hcandidates hquery hid fun _ _ => rfl
    rwa [Query.mapVars_id, Solutions.mapNames_id] at hsolve
  refine ⟨hsame _ rfl rfl, ?_, fun texts' theory' hload' hclauses => ?_⟩
  · exact solve_of_variants (candidates_variants hindex hindex hself) hquery hf hvisible
  · have hindex' := (load_cases hload').2
    exact ⟨hsame theory' hindex' hclauses, solve_of_variants
      (candidates_variants hindex hindex' (hclauses ▸ hvariants)) hquery hf hvisible⟩

/-- Names trade places, an anonymous variable is given a name, and it is one that the query has. -/
theorem solve_mapVars_target :
    let texts := ["edge(a, b).", "edge(b, c).",
      "target(X, Z) :- edge(X, Y), edge(Y, Z), \\+ edge(Z, _)."]
    let texts' := ["edge(a, b).", "edge(b, c).",
      "target(Z, X) :- edge(Z, Y), edge(Y, X), \\+ edge(X, To)."]
    let text := "target(a, To), edge(_, To)"
    let theory := (load texts).toOption.getD .empty
    let theory' := (load texts').toOption.getD .empty
    let query := (Query.parse text).toOption.getD ⟨[]⟩
    let names (_ : Nat) (x : String) :=
      if x = "X" then "Z" else if x = "Z" then "X" else if x = "Y" then "Y" else "To"
    let f (x : String) := if x = "To" then "X" else "_X"
    load texts = .ok theory ∧ Query.parse text = .ok query ∧
    (∀ i c, theory.clauses[i]? = some c → Renames (names i) c.occurrences) ∧
    Renames f query.vars ∧ (∀ x ∈ query.vars, Query.isVisible (f x) = Query.isVisible x) ∧
    load texts' = .ok theory' ∧ theory'.clauses = (theory.mapVars names).clauses ∧
    (theory.solve {} query).solutions.map Solution.text = ["To = c"] ∧
    ((theory.solve {} query).mapNames f).solutions.map Solution.text = ["X = c"] ∧
    (theory.mapVars names).solve {} query = theory.solve {} query ∧
    theory.solve {} (query.mapVars f) = (theory.solve {} query).mapNames f ∧
    theory'.solve {} query = theory.solve {} query ∧
    theory'.solve {} (query.mapVars f) = (theory.solve {} query).mapNames f := by
  intro texts texts' text theory theory' query names f
  have hload : load texts = .ok theory := eq_ok_getD (by decide +kernel) _
  have hload' : load texts' = .ok theory' := eq_ok_getD (by decide +kernel) _
  have hparse : Query.parse text = .ok query := eq_ok_getD (by decide +kernel) _
  have hclauses : theory'.clauses = (theory.mapVars names).clauses := by decide +kernel
  have hnames : ∀ i c, theory.clauses[i]? = some c → Renames (names i) c.occurrences := by
    have hinjective : ∀ c ∈ theory.clauses.toList, ∀ x ∈ c.occurrences, ∀ y ∈ c.occurrences,
        names 0 x = names 0 y → x = y := by decide +kernel
    have hplain : ∀ c ∈ theory.clauses.toList, ∀ x ∈ c.occurrences,
        '#' ∉ (names 0 x).toList ∧ names 0 x ≠ "_" := by decide +kernel
    intro i c hc
    have hmem : c ∈ theory.clauses.toList := Array.mem_toList_iff.mpr (Array.mem_of_getElem? hc)
    exact ⟨hinjective c hmem, fun x hx => .inl (hplain c hmem x hx)⟩
  have hf : Renames f query.vars := by
    have hplain : ∀ x ∈ query.vars, '#' ∉ (f x).toList ∧ f x ≠ "_" := by decide +kernel
    exact ⟨by decide +kernel, fun x hx => .inl (hplain x hx)⟩
  have hvisible : ∀ x ∈ query.vars, Query.isVisible (f x) = Query.isVisible x := by decide +kernel
  obtain ⟨hprogram, hquery, hloaded⟩ := solve_mapVars hload hparse hnames hf hvisible {}
  exact ⟨hload, hparse, hnames, hf, hvisible, hload', hclauses, by decide +kernel,
    by decide +kernel, hprogram, hquery, hloaded texts' theory' hload' hclauses⟩

end Theory

end OntoLogic
