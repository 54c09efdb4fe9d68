-- SUMMARY: What adding a fact or a relationship adds: a clause with the announced predicate, but any text may follow its parenthesis.
import OntoLogic.Proofs.Ontology.Predicates
import OntoLogic.Proofs.Session.Assertion
import OntoLogic.Proofs.Syntax.Application

/-!
# Added facts and relationships

A fact or a relationship is added by asserting a text that is put together from the given ones,
which are not looked at. With a legal name, the predicate is the announced one. The entity, or the
subject and the object, may close the parenthesis before its time: then a rule is added, or a clause
with another number of arguments, as far as the ontology allows it. A fact with as many arguments as
announced is added exactly when the text inside the parenthesis reads as these. The written forms of
names do, whatever characters the names have.
-/

namespace OntoLogic

/-! ## Added clauses -/

/-- A clause comes from a name, applied to some text. It has the name and at least one argument, and
exactly one where the name stands for a type. It is a fact with some arguments when the text reads
as these. -/
structure Clause.ComesFrom (o : Ontology) (name inside : String) (c : Clause) : Prop where
  head : ∃ args, args ≠ [] ∧ c.head = .compound name args
  type : o.types.contains (o.canonical name) = true → c.head.functor? = some (name, 1)
  fact_iff : ∀ args, c = ⟨.compound name args, []⟩ ↔ ReadsArguments (inside ++ ").") args

variable {o : Ontology} {name inside : String} {c : Clause} {n : Nat}

theorem Clause.comesFrom_of_validate (hname : isPlainName name = true)
    (h : o.validate (applied name inside) = .ok c) : c.ComesFrom o name inside := by
  obtain ⟨hparse, hcheck⟩ := Ontology.validate_iff.mp h
  obtain ⟨⟨args, hne, hhead⟩, hfact⟩ := parse_applied hname hparse
  refine ⟨⟨args, hne, hhead⟩, fun htype => ?_, hfact⟩
  have hfunctor : c.head.functor? = some (name, args.length) := by rw [hhead]; rfl
  obtain ⟨hpredicate, -⟩ := (Ontology.checkClause_iff hfunctor).mp hcheck
  rw [hfunctor, (Ontology.checkPredicate_iff.mp hpredicate).1.type htype]

/-- What is announced is added exactly when the text reads as so many arguments. -/
theorem Clause.ComesFrom.announced_iff (h : c.ComesFrom o name inside) :
    c.body = [] ∧ c.head.functor? = some (name, n) ↔
      ∃ args, args.length = n ∧ ReadsArguments (inside ++ ").") args := by
  obtain ⟨args, -, hhead⟩ := h.head
  have hfunctor : c.head.functor? = some (name, args.length) := by rw [hhead]; rfl
  constructor
  · rintro ⟨hbody, hcount⟩
    rw [hfunctor, Option.some.injEq, Prod.mk.injEq] at hcount
    refine ⟨args, hcount.2, (h.fact_iff args).mp ?_⟩
    rw [← hhead, ← hbody]
  · rintro ⟨args', rfl, hreads⟩
    rw [(h.fact_iff args').mpr hreads]
    exact ⟨rfl, rfl⟩

namespace Session

variable {σ : Type} [Engine σ] {s s' : Session σ}

/-- A session has got a text at the end of its program, which spells a clause that its ontology
accepts. -/
structure Appends (s : Session σ) (text : String) (c : Clause) (s' : Session σ) : Prop where
  becomes : s.Becomes (s.program ++ [text]) s.ontology s'
  validate : s.ontology.validate text = .ok c

theorem appends_of_assert {text : String} (htrim : Text.trim text = text)
    (h : (s.assert text).1.succeeds = true) : ∃ c, s.Appends text c (s.assert text).2 := by
  obtain ⟨-, ⟨-, c, hc⟩, hbecomes⟩ := assert_succeeds h
  rw [htrim] at hc hbecomes
  exact ⟨c, hbecomes, hc⟩

theorem factText_eq (entity type : String) :
    factText entity type = Clause.applied (Text.trim type) (Text.trim entity) := rfl

theorem relationshipText_eq (subject relation object : String) :
    relationshipText subject relation object =
      Clause.applied (Text.trim relation) (Text.trim subject ++ ", " ++ Text.trim object) := by
  simp only [relationshipText, Clause.applied, String.append_assoc]

theorem appends_of_addFact {entity type : String}
    (h : (s.addFact entity type).1.succeeds = true) :
    ∃ c, s.Appends (factText entity type) c (s.addFact entity type).2 :=
  appends_of_assert (Clause.trim_applied type _) h

theorem appends_of_addRelationship {subject relation object : String}
    (h : (s.addRelationship subject relation object).1.succeeds = true) :
    ∃ c, s.Appends (relationshipText subject relation object) c
      (s.addRelationship subject relation object).2 :=
  appends_of_assert (by rw [relationshipText_eq, Clause.trim_applied]) h

omit [Engine σ] in
/-- Names in their written forms are added as such. -/
theorem Appends.of_names {first : String} {rest : List String} (hname : isPlainName name = true)
    (h : s.Appends (Clause.applied name (", ".intercalate ((first :: rest).map atomText))) c s') :
    c = ⟨.compound name ((first :: rest).map .atom), []⟩ :=
  ((Clause.comesFrom_of_validate hname h.validate).fact_iff _).mpr
    (readsArguments_names first rest)

/-- Adding a fact or a relationship puts one clause at the end of the program. With a legal name its
predicate is the announced one. It is a fact with as many arguments as announced exactly when the
text between the parentheses reads as these, as it does for names in their written forms. -/
theorem added_clause_iff (s : Session σ) :
    (∀ entity type, (s.addFact entity type).1.succeeds = true →
      ∃ c, s.Appends (factText entity type) c (s.addFact entity type).2 ∧
        (isPlainName (Text.trim type) = true →
          c.ComesFrom s.ontology (Text.trim type) (Text.trim entity) ∧
          (c.body = [] ∧ c.head.functor? = some (Text.trim type, 1) ↔
            ∃ args, args.length = 1 ∧ ReadsArguments (Text.trim entity ++ ").") args))) ∧
    (∀ subject relation object, (s.addRelationship subject relation object).1.succeeds = true →
      ∃ c, s.Appends (relationshipText subject relation object) c
          (s.addRelationship subject relation object).2 ∧
        (isPlainName (Text.trim relation) = true →
          c.ComesFrom s.ontology (Text.trim relation)
            (Text.trim subject ++ ", " ++ Text.trim object) ∧
          (c.body = [] ∧ c.head.functor? = some (Text.trim relation, 2) ↔
            ∃ args, args.length = 2 ∧
              ReadsArguments (Text.trim subject ++ ", " ++ Text.trim object ++ ").") args))) ∧
    (∀ name type, isPlainName (Text.trim type) = true →
      (s.addFact (atomText name) type).1.succeeds = true →
      s.Appends (factText (atomText name) type) ⟨.compound (Text.trim type) [.atom name], []⟩
        (s.addFact (atomText name) type).2) ∧
    ∀ name relation name', isPlainName (Text.trim relation) = true →
      (s.addRelationship (atomText name) relation (atomText name')).1.succeeds = true →
      s.Appends (relationshipText (atomText name) relation (atomText name'))
        ⟨.compound (Text.trim relation) [.atom name, .atom name'], []⟩
        (s.addRelationship (atomText name) relation (atomText name')).2 := by
  refine ⟨?_, ?_, ?_, ?_⟩
  · intro entity type h
    obtain ⟨c, hc⟩ := appends_of_addFact h
    refine ⟨c, hc, fun hname => ?_⟩
    have hfrom := Clause.comesFrom_of_validate hname hc.validate
    exact ⟨hfrom, hfrom.announced_iff⟩
  · intro subject relation object h
    obtain ⟨c, hc⟩ := appends_of_addRelationship h
    refine ⟨c, hc, fun hname => ?_⟩
    have hfrom := Clause.comesFrom_of_validate hname (relationshipText_eq .. ▸ hc.validate)
    exact ⟨hfrom, hfrom.announced_iff⟩
  · intro name type hname h
    obtain ⟨c, hc⟩ := appends_of_addFact h
    have hnames : s.Appends (Clause.applied (Text.trim type)
        (", ".intercalate ([name].map atomText))) c (s.addFact (atomText name) type).2 := by
      simpa [factText_eq, trim_atomText] using hc
    obtain rfl := hnames.of_names hname
    exact hc
  · intro name relation name' hname h
    obtain ⟨c, hc⟩ := appends_of_addRelationship h
    have hnames : s.Appends (Clause.applied (Text.trim relation)
        (", ".intercalate ([name, name'].map atomText))) c
        (s.addRelationship (atomText name) relation (atomText name')).2 := by
      simpa [relationshipText_eq, trim_atomText] using hc
    obtain rfl := hnames.of_names hname
    exact hc

/-- A name that looks like the beginning of a rule is added as a name when it is written as one. A
subject with a comma of its own is one argument. -/
theorem added_clause_iff_polly :
    let s : Session MemoryEngine := start "s" ⟨[], 1, 0, none⟩ 8
      (some { types := ["bird"], relationships := ["likes"] }) (.new {}) (.new {})
    let name := "X) :- bird(Y"
    let likes := s.addRelationship "pair(polly, X)" " likes" "X "
    (s.addFact (atomText name) " bird ").1.succeeds = true ∧
    s.Appends "bird('X) :- bird(Y')." ⟨.compound "bird" [.atom name], []⟩
      (s.addFact (atomText name) " bird ").2 ∧
    likes.1.succeeds = true ∧
    ∃ c, s.Appends "likes(pair(polly, X), X)." c likes.2 ∧
      c.body = [] ∧ c.head.functor? = some ("likes", 2) ∧
      ∃ args, args.length = 2 ∧ ReadsArguments "pair(polly, X), X)." args := by
  intro s name likes
  obtain ⟨-, hrelationship, hnames, -⟩ := added_clause_iff s
  have hfact : (s.addFact (atomText name) " bird ").1.succeeds = true := by decide +kernel
  have hadded := hnames name " bird " (by decide +kernel) hfact
  have htype : Text.trim " bird " = "bird" := by decide +kernel
  have htext : factText (atomText name) " bird " = "bird('X) :- bird(Y')." := by decide +kernel
  rw [htype, htext] at hadded
  have hlikes : likes.1.succeeds = true := by decide +kernel
  obtain ⟨c, hc, hannounced⟩ := hrelationship _ _ _ hlikes
  have hparse : Clause.parse "likes(pair(polly, X), X)." =
      .ok ⟨.compound "likes" [.compound "pair" [.atom "polly", .var "X"], .var "X"], []⟩ := by
    decide +kernel
  have hspelled :
      relationshipText "pair(polly, X)" " likes" "X " = "likes(pair(polly, X), X)." := by
    decide +kernel
  rw [hspelled] at hc
  obtain rfl := Except.ok.inj ((Ontology.validate_iff.mp hc.validate).1.symm.trans hparse)
  have hinside : Text.trim "pair(polly, X)" ++ ", " ++ Text.trim "X " ++ ")." =
      "pair(polly, X), X)." := by decide +kernel
  have hreads := (hannounced (by decide +kernel)).2.mp ⟨rfl, by decide +kernel⟩
  rw [hinside] at hreads
  exact ⟨hfact, hadded, hlikes, _, hc, rfl, by decide +kernel, hreads⟩

/-- An entity that closes the parenthesis makes a rule of a fact, and one with a comma gives a fact
of a relationship. So do the subject and the object of a relationship, and three arguments come of
two. -/
theorem rule_added_as_fact :
    let s : Session MemoryEngine := start "s" ⟨[], 1, 0, none⟩ 8
      (some { types := ["bird"], relationships := ["likes"] }) (.new {}) (.new {})
    let rule := s.addFact "X) :- bird(Y" "bird"
    let triple := s.addRelationship "bob" "likes" "mary, tim"
    let c := (Clause.parse "bird(X) :- bird(Y).").toOption.getD default
    let d := (Clause.parse "likes(bob, mary, tim).").toOption.getD default
    Reachable {} s ∧
    rule.1.succeeds = true ∧ rule.2.program = ["bird(X) :- bird(Y)."] ∧
    Clause.parse "bird(X) :- bird(Y)." = .ok c ∧ c.body ≠ [] ∧
    triple.1.succeeds = true ∧ triple.2.program = ["likes(bob, mary, tim)."] ∧
    Clause.parse "likes(bob, mary, tim)." = .ok d ∧ d.head.functor? = some ("likes", 3) := by
  intro s rule triple c d
  have hcreate : s.loadInitial [] = .ok s := rfl
  exact ⟨.create hcreate, by decide +kernel, by decide +kernel, eq_ok_getD (by decide +kernel) _,
    by decide +kernel, by decide +kernel, by decide +kernel, eq_ok_getD (by decide +kernel) _,
    by decide +kernel⟩

end Session

end OntoLogic
