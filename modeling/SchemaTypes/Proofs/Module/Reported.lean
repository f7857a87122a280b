import SchemaTypes.Proofs.Module.References

/-!
# Cycles that are reported

If there is no module because references lead back, the error lists the places that were passed. The
list begins where the type of a part was being built, not where references were followed to. Every
place behind the first is where a reference leads that was met at the place before, no place is
passed twice, and the last one is one of those before it (`Module.circle_of_generate`).

The list is put together of three pieces: the places from which references were followed to the
site, the site itself, and the bare references that are looked through from there. What all of them
keep is `Document.Leads`, so that the pieces join.
-/

namespace SchemaTypes

variable {d : Document} {b : Builder} {origin p q : Pointer} {s s₀ : Schema} {site : BuildSite}
  {steps : Nat} {chain passed rest ps : List Pointer}

namespace Document

/-- What is found at a place refers to another place. -/
def RefersTo (d : Document) (p q : Pointer) : Prop :=
  ∃ found, d.resolve? p = some found ∧ found.schema.internalReference? = some q

/-- From a node, references lead by way of the places: the first is its target, and each other one
is where the one before refers to. -/
def Leads (d : Document) (s : Schema) (ps : List Pointer) : Prop :=
  s.internalReference? = ps.head? ∧ ps.IsChain d.RefersTo

/-- A bare reference refers to where it leads. -/
theorem refersTo_of_next? (h : d.next? p = some q) : d.RefersTo p q := by
  obtain ⟨found, hr, -, href⟩ := next?_eq_some_iff.1 h
  exact ⟨found, hr, href⟩

/-- References lead to the target of the node. -/
theorem Leads.single (h : s.internalReference? = some q) : d.Leads s [q] :=
  ⟨h, List.isChain_singleton q⟩

/-- From a place that references lead to, they lead on to where it refers to. -/
theorem Leads.concat (h : d.Leads s (ps ++ [p])) (hq : d.RefersTo p q) :
    d.Leads s (ps ++ [p] ++ [q]) := by
  obtain ⟨hhead, hchain⟩ := h
  constructor
  · rw [hhead, List.head?_append_of_ne_nil (ps ++ [p]) (by simp)]
  · refine hchain.append (List.isChain_singleton q) fun x hx y hy => ?_
    rw [List.getLast?_concat] at hx
    cases hx
    cases hy
    exact hq

/-- From a node at a place references lead back: they pass no place twice, and come to the last one
for the second time. -/
structure Circle (d : Document) (s : Schema) (origin : Pointer) (between : List Pointer)
    (last : Pointer) : Prop where
  leads : d.Leads s (between ++ [last])
  nodup : (origin :: between).Nodup
  back : last ∈ origin :: between

end Document

namespace Builder

open Document

/-! ## Following -/

/-- If bare references that are followed lead back, what was passed before and where they come to is
a circle. -/
theorem circle_of_follow (h : follow d steps passed p = .error (.cycle chain))
    (hpassed : passed = origin :: rest) (hnodup : passed.Nodup) (hleads : d.Leads s (rest ++ [p])) :
    ∃ between last, chain = origin :: between ++ [last] ∧ d.Circle s origin between last := by
  induction steps generalizing passed rest p with
  | zero => cases h
  | succ steps ih =>
    rw [follow] at h
    split at h
    · next hback =>
      cases h
      subst hpassed
      exact ⟨rest, p, rfl, hleads, hnodup, by simpa using hback⟩
    · next hnew =>
      split at h
      · next q hq =>
        have hnodup' : (passed ++ [p]).Nodup :=
          List.nodup_append.2 ⟨hnodup, List.nodup_singleton p, fun x hx y hy hxy =>
            hnew (by simpa [← List.mem_singleton.1 hy, ← hxy] using hx)⟩
        exact ih h (by rw [hpassed]; rfl) hnodup' (hleads.concat (refersTo_of_next? hq))
      · cases h

/-- References have been followed from a node at a place to the node of the site, by the places that
the site has passed. -/
structure Led (d : Document) (s₀ : Schema) (origin : Pointer) (s : Schema) (site : BuildSite)
    (rest : List Pointer) : Prop where
  passed : site.chain ++ [site.place] = origin :: rest
  nodup : (site.chain ++ [site.place]).Nodup
  goesOn : ∀ q, s.internalReference? = some q → d.Leads s₀ (rest ++ [q])

/-- Where no reference has been followed, the node is that of the site. -/
theorem Led.start (d : Document) (s : Schema) (h : site.chain = []) :
    Led d s site.place s site [] where
  passed := by rw [h]; rfl
  nodup := by rw [h]; exact List.nodup_singleton _
  goesOn _ hq := .single hq

/-- The target of the node that references led to is where they lead next. -/
theorem Led.follow {found : Located} (h : Led d s₀ origin s site rest)
    (hq : s.internalReference? = some q) (hnew : q ∉ site.chain ++ [site.place])
    (hr : d.resolve? q = some found) :
    Led d s₀ origin found.schema ⟨q, false, site.chain ++ [site.place]⟩ (rest ++ [q]) where
  passed := by rw [h.passed]; rfl
  nodup := List.nodup_append.2 ⟨h.nodup, List.nodup_singleton q, fun x hx y hy hxy => by
    rw [hxy, List.mem_singleton.1 hy] at hx
    exact hnew hx⟩
  goesOn r hr' := (h.goesOn q hq).concat ⟨found, hr, hr'⟩

/-! ## Building -/

/-- A type that is not built for a circle was to be built from a node where no reference had been
followed yet, and references lead back from there. -/
def Reports (b : Builder) (chain : List Pointer) : Prop :=
  ∃ steps s site between last, b.Built steps s site ∧ site.chain = [] ∧
    b.build steps s site = .error (.cycle chain) ∧ chain = site.place :: between ++ [last] ∧
    b.document.Circle s site.place between last

/-- What is referred to by a name is built. -/
theorem unnamed_of_build_eq_error {e : BuildError} (h : b.build (steps + 1) s site = .error e) :
    b.Unnamed site := by
  refine (b.named_or_unnamed site).resolve_left ?_
  rintro ⟨name, hby, hname⟩
  cases (build_named steps s hby hname).symm.trans h

/-- If a type is not built for a circle, this is a circle of the node that references have been
followed from, or of a part of what they have been followed to. -/
theorem reports_of_build {steps₀ : Nat} {site₀ : BuildSite} (hbuilt : b.Built steps s site)
    (h : b.build steps s site = .error (.cycle chain)) (hbuilt₀ : b.Built steps₀ s₀ site₀)
    (hsite₀ : site₀.chain = []) (h₀ : b.build steps₀ s₀ site₀ = .error (.cycle chain))
    (hled : Led b.document s₀ site₀.place s site rest) : b.Reports chain := by
  induction steps using Nat.strong_induction_on generalizing s site steps₀ s₀ site₀ rest with
  | _ steps ih =>
  cases steps with
  | zero => cases h
  | succ steps =>
  have hsite := unnamed_of_build_eq_error h
  cases href : s.reference with
  | none =>
    -- A part fails, and no reference has been followed to it.
    rw [build_body steps hsite href] at h
    have hrests := restsOn_body (fun slot c => b.build steps c (.part (site.place.slot slot))) s
    rw [h] at hrests
    obtain ⟨slot, c, hused, hc⟩ := hrests
    have hpart : b.Built steps c (.part (site.place.slot slot)) := .part hbuilt hsite href hused
    exact ih steps (Nat.lt_succ_self _) hpart hc hpart rfl hc (.start b.document c rfl)
  | some ref =>
    rw [build_reference steps hsite href, reference] at h
    cases hq : Pointer.ofRef? ref with
    | none =>
      rw [hq] at h
      cases h
    | some q =>
    rw [hq] at h
    have htarget := Schema.internalReference?_eq_some_iff.2 ⟨ref, href, hq⟩
    rcases Except.bind_eq_error_iff.1 h with hfollow | ⟨_, hfollow, h⟩
    · obtain ⟨between, last, hchain, hcircle⟩ :=
        circle_of_follow hfollow hled.passed hled.nodup (hled.goesOn q htarget)
      exact ⟨steps₀, s₀, site₀, between, last, hbuilt₀, hsite₀, h₀, hchain, hcircle⟩
    · split at h
      · cases h
      next hnone =>
      split at h
      · cases h
      next found hr =>
      split at h
      · next hfound =>
        exact ih steps (Nat.lt_succ_self _) (.target hbuilt hsite href hq hnone hr hfound) h hbuilt₀
          hsite₀ h₀ (hled.follow htarget (notMem_of_follow hfollow) hr)
      · cases h

end Builder

namespace Module

open Builder Document

variable {options : ModuleOptions}

/-- If places are not declared, what stands at one of them was not built. -/
theorem exists_error_of_declare {places : List (Pointer × String)} {e : BuildError}
    (h : declare b places = .error e) :
    ∃ p name found, (p, name) ∈ places ∧ b.document.resolve? p = some found ∧
      b.declared found.schema p = .error e := by
  induction places with
  | nil => cases h
  | cons place rest ih =>
    obtain ⟨p, name⟩ := place
    rw [declare] at h
    split at h
    · obtain ⟨q, other, found, hmem, hrest⟩ := ih h
      exact ⟨q, other, found, .tail _ hmem, hrest⟩
    · next found hr =>
      rcases Except.bind_eq_error_iff.1 h with hdeclared | ⟨_, -, h⟩
      · exact ⟨p, name, found, .head _, hr, hdeclared⟩
      · rcases Except.bind_eq_error_iff.1 h with hrest | ⟨_, -, h⟩
        · obtain ⟨q, other, found, hmem, hrest⟩ := ih hrest
          exact ⟨q, other, found, .tail _ hmem, hrest⟩
        · cases h

/-- If there is no module because references lead back, the error lists the places of a circle. The
first is where the type of a node was to be built to which no reference had been followed. From that
node references lead from each place to the next, the places but the last are all different, and the
last one is exactly one of them. -/
theorem circle_of_generate (h : generate d options = .error (.cycle chain)) :
    ∃ steps s site between last, (builder d options).Built steps s site ∧ site.chain = [] ∧
      (builder d options).build steps s site = .error (.cycle chain) ∧
      chain = site.place :: between ++ [last] ∧
      s.internalReference? = (between ++ [last]).head? ∧ (between ++ [last]).IsChain d.RefersTo ∧
      (site.place :: between).Nodup ∧ (site.place :: between).count last = 1 := by
  rw [generate_eq] at h
  rcases Except.bind_eq_error_iff.1 h with hdeclare | ⟨_, -, h⟩
  · obtain ⟨p, name, found, hmem, hr, hdeclared⟩ := exists_error_of_declare hdeclare
    have hbuilt : (builder d options).Built (stepLimit d) found.schema (.declaration p) :=
      .declaration hmem hr
    obtain ⟨steps, s, site, between, last, hbuilt, hsite, hbuild, hchain, hcircle⟩ :=
      reports_of_build hbuilt hdeclared hbuilt rfl hdeclared (.start d found.schema rfl)
    exact ⟨steps, s, site, between, last, hbuilt, hsite, hbuild, hchain, hcircle.leads.1,
      hcircle.leads.2, hcircle.nodup, List.count_eq_one_of_mem hcircle.nodup hcircle.back⟩
  · cases h

/-- A document with a definition that refers to one of two that refer to each other. -/
def trailing : Document where
  json := .object [("definitions", .object [("A", .object [("$ref", .string "#/definitions/B")]),
    ("B", .object [("$ref", .string "#/definitions/C")]),
    ("C", .object [("$ref", .string "#/definitions/B")])])]
  root := { definitions := some [("A", { reference := some "#/definitions/B" }),
    ("B", { reference := some "#/definitions/C" }),
    ("C", { reference := some "#/definitions/B" })] }
  distinct := by simp [Json.KeysDistinct, Json.MembersDistinct]
  reads := rfl

/-- The names of that document. -/
def trailingTable : NameTable where
  entries := [(definitionAt "A", ⟨"A", "A"⟩), (definitionAt "B", ⟨"B", "B"⟩),
    (definitionAt "C", ⟨"C", "C"⟩)]
  counters := [("A", 1), ("B", 1), ("C", 1)]
  given := ["C", "B", "A"]

/-- Each definition leads on to the next, and the last one to the one before it. -/
theorem next?_trailing :
    trailing.next? (definitionAt "A") = some (definitionAt "B") ∧
      trailing.next? (definitionAt "B") = some (definitionAt "C") ∧
      trailing.next? (definitionAt "C") = some (definitionAt "B") := by
  refine ⟨(next?_definition rfl).trans ?_, (next?_definition rfl).trans ?_,
    (next?_definition rfl).trans ?_⟩ <;> cbv

/-- All definitions keep their names. -/
theorem builder_trailing : builder trailing {} = ⟨trailing, trailingTable⟩ := by
  have hschema : Survey.ofSchema trailing none =
      ⟨trailingTable, ["#/definitions/B", "#/definitions/C"], []⟩ := by cbv
  have hcontains : ∀ key ∈ ["B", "C"], trailingTable.contains (definitionAt key) = true := by
    decide
  have hpointers : trailingTable.pointers = ["A", "B", "C"].map definitionAt := rfl
  have hbase : ∀ key ∈ ["A", "B", "C"], trailingTable.base? (definitionAt key) = some key := by
    decide
  refine congrArg (Builder.mk trailing) (Survey.names_eq_of_forall hschema ?_ ?_)
  · have hrefB : Pointer.ofRef? "#/definitions/B" = some (definitionAt "B") := by cbv
    have hrefC : Pointer.ofRef? "#/definitions/C" = some (definitionAt "C") := by cbv
    simp [hrefB, hrefC, hcontains]
  · obtain ⟨hA, hB, hC⟩ := next?_trailing
    simp [hpointers, Survey.isRedundant, hA, hB, hC, hbase]

/-- The circle of that document is met from outside of it. -/
theorem circle_trailing :
    generate trailing {} = .error (.cycle (["A", "B", "C", "B"].map definitionAt)) ∧
      ∃ steps s site between last, (builder trailing {}).Built steps s site ∧ site.chain = [] ∧
        (builder trailing {}).build steps s site =
          .error (.cycle (["A", "B", "C", "B"].map definitionAt)) ∧
        ["A", "B", "C", "B"].map definitionAt = site.place :: between ++ [last] ∧
        s.internalReference? = (between ++ [last]).head? ∧
        (between ++ [last]).IsChain trailing.RefersTo ∧
        (site.place :: between).Nodup ∧ (site.place :: between).count last = 1 := by
  have hgenerate : generate trailing {} =
      .error (.cycle (["A", "B", "C", "B"].map definitionAt)) := by
    obtain ⟨hA, hB, hC⟩ := next?_trailing
    have hnames : trailingTable.names =
        [(definitionAt "A", "A"), (definitionAt "B", "B"), (definitionAt "C", "C")] := rfl
    have hfound : trailing.resolve? (definitionAt "A") =
        some ⟨{ reference := some "#/definitions/B" }, true⟩ := resolve?_definition rfl
    have href : Pointer.ofRef? "#/definitions/B" = some (definitionAt "B") := by cbv
    obtain ⟨n, hlimit⟩ : ∃ n, stepLimit trailing = n + 1 := ⟨_, rfl⟩
    have hdeclared : declared ⟨trailing, trailingTable⟩ { reference := some "#/definitions/B" }
        (definitionAt "A") = .error (.cycle (["A", "B", "C", "B"].map definitionAt)) := by
      have hfollow : follow trailing (followLimit trailing) [definitionAt "A"] (definitionAt "B") =
          .error (.cycle (["A", "B", "C", "B"].map definitionAt)) := by
        obtain ⟨k, hk⟩ : ∃ k, followLimit trailing = k + 1 + 1 + 1 := ⟨_, rfl⟩
        rw [hk, follow_of_next?_eq_some (by decide) hB, follow_of_next?_eq_some (by decide) hC,
          follow_of_mem (by decide)]
        rfl
      rw [declared, hlimit, build_reference n (unnamed_of_byName rfl) rfl, reference, href]
      simp only [BuildSite.declaration, List.nil_append, hfollow]
      rfl
    rw [generate_eq, builder_trailing, hnames]
    simp only [declare, hfound, hdeclared]
    rfl
  exact ⟨hgenerate, circle_of_generate hgenerate⟩

end Module

end SchemaTypes
