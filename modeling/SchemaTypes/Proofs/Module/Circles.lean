import SchemaTypes.Proofs.Module.Cycles
import SchemaTypes.Proofs.Module.Declarations

/-!
# Aliases of aliases

A declaration may be an alias of nothing but the name of another (`Module.Restates`). If all that
do so are for references to what is found in the document, and no more than one of these has
anything beside its `$ref`, they do not go around in a circle (`Module.not_isChain_restates`): bare
references are followed, so the circle would have been noticed at the one that is not bare. Nothing
else is followed, so there are circles of two references that are not bare, of a combinator with a
single member, of a reference out of the document, and of one to nothing in it
(`Module.isChain_restates_restating`).
-/

namespace SchemaTypes

variable {d : Document} {t : NameTable} {p q r : Pointer} {name : String} {steps : Nat}
  {options : ModuleOptions} {m : Module}

namespace Document

/-- What is found at `p` is a reference to `q`, where something is found, too. -/
def Refers (d : Document) (p q : Pointer) : Prop :=
  ∃ found, d.resolve? p = some found ∧ found.schema.internalReference? = some q ∧
    ∃ target, d.resolve? q = some target

/-- The target of a bare reference is its target. -/
theorem Refers.eq_of_next? (h : d.Refers p q) (hnext : d.next? p = some r) : r = q := by
  obtain ⟨found, hr, href, -⟩ := h
  obtain ⟨_, hr', -, href'⟩ := next?_eq_some_iff.1 hnext
  cases hr.symm.trans hr'
  exact Option.some.inj (href'.symm.trans href)

/-- A place that leads to a name hops to a place that has it. -/
theorem LeadsTo.exists_hop? (h : d.LeadsTo t p name) :
    ∃ n q, d.hop? n p = some q ∧ t.lookup? q = some name := by
  induction h with
  | @here p name hname => exact ⟨0, p, rfl, hname⟩
  | next _ hnext _ ih =>
    obtain ⟨n, q, hhop, hname⟩ := ih
    refine ⟨n + 1, q, ?_, hname⟩
    rw [hop?, hnext, Option.bind_some, hhop]

end Document

namespace Builder

/-- Bare references that are followed do not come to a place that was passed. -/
theorem notMem_of_follow_of_hop? {passed : List Pointer} {n : Nat}
    (h : follow d steps passed p = .ok ()) (hhop : d.hop? n p = some q) : q ∉ passed := by
  induction n generalizing steps passed p with
  | zero =>
    cases hhop
    exact notMem_of_follow h
  | succ n ih =>
    obtain ⟨r, hnext, hhop⟩ := Option.bind_eq_some_iff.1 hhop
    cases steps with
    | zero => cases h
    | succ steps =>
      rw [follow_of_next?_eq_some (notMem_of_follow h) hnext] at h
      intro hmem
      exact ih h hhop (List.mem_append_left _ hmem)

/-- A reference to a place with a name becomes that name, if the place does not lead back. -/
theorem build_of_follow {b : Builder} {s : Schema} {site : BuildSite} {ref : String}
    (steps : Nat) (hsite : b.Unnamed site) (href : s.reference = some ref)
    (hq : Pointer.ofRef? ref = some q)
    (hfollow : follow b.document (followLimit b.document) (site.chain ++ [site.place]) q = .ok ())
    (hname : b.table.lookup? q = some name) :
    b.build (steps + 1) s site = .ok (.named name) := by
  rw [build_reference steps hsite href, reference, hq]
  simp only [hfollow, hname]
  rfl

end Builder

namespace Module

open Builder Document

/-- The module declares the place `p` as an alias of nothing but the name of `q`. -/
def Restates (d : Document) (options : ModuleOptions) (m : Module) (p q : Pointer) : Prop :=
  ∃ name found other, (builder d options).table.lookup? p = some name ∧
    d.resolve? p = some found ∧ (builder d options).table.lookup? q = some other ∧
    ⟨name, Comment.ofSchema found.schema ++ "type " ++ name ++ " = " ++ other ++ ";"⟩ ∈
      m.declarations

/-- A declaration that is an alias was made of the text that it is an alias of. -/
theorem eq_of_text_ofSchema {type other : String} {s : Schema}
    (h : (Declaration.ofSchema name s type).text =
      Comment.ofSchema s ++ "type " ++ name ++ " = " ++ other ++ ";") : type = other := by
  have hlist := congrArg String.toList h
  simp only [Declaration.ofSchema] at hlist
  split at hlist
  · -- An interface is written in another way.
    simp only [String.toList_append, List.append_assoc] at hlist
    have hkind := List.append_cancel_left hlist
    exact absurd (congrArg List.head? hkind) (by simp)
  · simp only [String.toList_append] at hlist
    exact String.toList_inj.1 (List.append_cancel_left (List.append_cancel_right hlist))

/-- What is declared as an alias of a name was built, and is written as this name. -/
theorem exists_type_of_restates (h : generate d options = .ok m)
    (hrestates : Restates d options m p q) :
    ∃ name found type, (builder d options).table.lookup? p = some name ∧
      d.resolve? p = some found ∧ (builder d options).declared found.schema p = .ok type ∧
      (builder d options).table.lookup? q = some type.text := by
  obtain ⟨name, found, other, hname, hr, hother, hmem⟩ := hrestates
  rw [generate_eq] at h
  obtain ⟨declared, hdeclared, h⟩ := Except.bind_eq_ok_iff.1 h
  cases h
  obtain ⟨p', name', found', type, hplace, hr', htype, heq⟩ :=
    exists_type_of_mem_declare hdeclared hmem
  -- No other place has the name of the declaration.
  have hconsistent := Survey.consistent_names d options.rootName
  have hnames := (congrArg Declaration.name heq).trans (name_ofSchema _ _ _)
  cases hnames
  cases hconsistent.eq_of_lookup? hname (hconsistent.lookup?_of_mem_names hplace)
  cases hr.symm.trans hr'
  have htext := eq_of_text_ofSchema (congrArg Declaration.text heq).symm
  exact ⟨name, found, type, hname, hr, htype, htext ▸ hother⟩

/-- A reference whose declaration restates another place hops there from its target. -/
theorem exists_hop?_of_restates (h : generate d options = .ok m)
    (hrestates : Restates d options m p q) (hrefers : d.Refers p r) :
    ∃ n, d.hop? n r = some q := by
  obtain ⟨name, found, type, hname, hr, htype, hother⟩ := exists_type_of_restates h hrestates
  obtain ⟨_, hr', href, target, htarget⟩ := hrefers
  cases hr.symm.trans hr'
  obtain ⟨s, hs⟩ := surveyed_of_mem_names (NameTable.mem_names_of_lookup? hname) hr
  obtain ⟨name', hlead⟩ := complete_names d options.rootName r target ⟨s, _, hs, href⟩ htarget
  -- The type is the name that the target leads to, and no other place has that name.
  obtain ⟨ref, href, hq⟩ := Schema.internalReference?_eq_some_iff.1 href
  cases build_of_leadsTo (b := builder d options) hlead (unnamed_of_byName rfl) href hq htype
  obtain ⟨n, q', hhop, hname'⟩ := hlead.exists_hop?
  cases (Survey.consistent_names d options.rootName).eq_of_lookup? hother hname'
  exact ⟨n, hhop⟩

/-- References that restate each other in a chain, all but the first and the last of which are bare,
hop from the target of the first to the last. -/
theorem exists_hop?_of_isChain (h : generate d options = .ok m) {between : List Pointer}
    (hchain : (p :: between ++ [q]).IsChain (Restates d options m)) (hrefers : d.Refers p r)
    (hbetween : ∀ x ∈ between, x = q ∨ ∃ y, d.next? x = some y ∧ d.Refers x y) :
    ∃ n, d.hop? n r = some q := by
  induction between generalizing p r with
  | nil => exact exists_hop?_of_restates h (List.isChain_pair.1 hchain) hrefers
  | cons x rest ih =>
    obtain ⟨hfirst, hrest⟩ := List.isChain_cons_cons.1 hchain
    obtain ⟨n, hhop⟩ := exists_hop?_of_restates h hfirst hrefers
    rcases hbetween x (.head _) with rfl | ⟨y, hnext, hy⟩
    · exact ⟨n, hhop⟩
    · obtain ⟨k, hmore⟩ := ih hrest hy fun z hz => hbetween z (.tail _ hz)
      refine ⟨n + (k + 1), ?_⟩
      rw [hop?_add, hhop, Option.bind_some, hop?, hnext, Option.bind_some, hmore]

/-- A circle can be entered anywhere. -/
theorem exists_isChain_of_mem {R : Pointer → Pointer → Prop} {rest : List Pointer}
    (hchain : (p :: rest ++ [p]).IsChain R) (hq : q ∈ p :: rest) :
    ∃ between, between ⊆ p :: rest ∧ (q :: between ++ [q]).IsChain R := by
  obtain ⟨front, back, heq⟩ := List.append_of_mem hq
  cases front with
  | nil =>
    cases heq
    exact ⟨rest, List.subset_cons_self _ _, hchain⟩
  | cons x front =>
    cases heq
    have hsplit : p :: (front ++ q :: back) ++ [p] = (p :: front) ++ (q :: back ++ [p]) := by simp
    have hsplit' : p :: (front ++ q :: back) ++ [p] = ([p] ++ (front ++ [q])) ++ (back ++ [p]) := by
      simp
    have hback : (q :: back ++ [p]).IsChain R := (hsplit ▸ hchain).right_of_append
    have hfront : ([p] ++ (front ++ [q])).IsChain R := (hsplit' ▸ hchain).left_of_append
    have hround := hback.append_overlap hfront (List.cons_ne_nil _ _)
    refine ⟨back ++ p :: front, ?_, by simpa using hround⟩
    intro x hx
    rcases List.mem_append.1 hx with hx | hx
    · exact .tail _ (List.mem_append_right _ (.tail _ hx))
    · rcases List.mem_cons.1 hx with rfl | hx
      · exact .head _
      · exact .tail _ (List.mem_append_left _ hx)

/-- Declarations do not restate each other in a circle, if all of them are references to what is
found in the document, and no more than one of these is not bare. -/
theorem not_isChain_restates (h : generate d options = .ok m) {rest : List Pointer}
    (hrefers : ∀ x ∈ p :: rest, ∃ y, d.Refers x y)
    (hbare : ∀ x ∈ p :: rest, ∀ y ∈ p :: rest, d.next? x = none → d.next? y = none → x = y) :
    ¬(p :: rest ++ [p]).IsChain (Restates d options m) := by
  intro hchain
  -- The circle is entered at the reference that is not bare, if there is one.
  obtain ⟨x, hx, hothers⟩ : ∃ x ∈ p :: rest, ∀ y ∈ p :: rest, y = x ∨ ∃ z, d.next? y = some z := by
    by_cases hall : ∃ x ∈ p :: rest, d.next? x = none
    · obtain ⟨x, hx, hnone⟩ := hall
      refine ⟨x, hx, ?_⟩
      intro y hy
      cases hnext : d.next? y with
      | none => exact .inl (hbare y hy x hx hnext hnone)
      | some z => exact .inr ⟨z, rfl⟩
    · refine ⟨p, .head _, ?_⟩
      intro y hy
      cases hnext : d.next? y with
      | none => exact absurd ⟨y, hy, hnext⟩ hall
      | some z => exact .inr ⟨z, rfl⟩
  obtain ⟨between, hsub, hround⟩ := exists_isChain_of_mem hchain hx
  obtain ⟨r, hrefer⟩ := hrefers x hx
  obtain ⟨n, hhop⟩ : ∃ n, d.hop? n r = some x := by
    refine exists_hop?_of_isChain h hround hrefer ?_
    intro y hy
    rcases hothers y (hsub hy) with rfl | ⟨z, hnext⟩
    · exact .inl rfl
    · obtain ⟨w, hw⟩ := hrefers y (hsub hy)
      cases hw.eq_of_next? hnext
      exact .inr ⟨z, hnext, hw⟩
  -- Its declaration was built, so it is not led back to.
  obtain ⟨y, hfirst⟩ : ∃ y, Restates d options m x y := by
    cases between with
    | nil => exact ⟨x, List.isChain_pair.1 hround⟩
    | cons y _ => exact ⟨y, (List.isChain_cons_cons.1 hround).1⟩
  obtain ⟨-, found, type, -, hr, htype, -⟩ := exists_type_of_restates h hfirst
  obtain ⟨_, hr', href, -⟩ := hrefer
  cases hr.symm.trans hr'
  obtain ⟨ref, href, hq⟩ := Schema.internalReference?_eq_some_iff.1 href
  obtain ⟨k, hreference⟩ := reference_of_build (unnamed_of_byName rfl) href htype
  exact notMem_of_follow_of_hop? (follow_of_reference hreference hq) hhop (.head _)

/-- A document of a reference that is not bare, two bare ones behind it, and a type behind these. -/
def relayed : Document where
  json := .object [("definitions", .object [
    ("A", .object [("$ref", .string "#/definitions/B"), ("type", .string "object")]),
    ("B", .object [("$ref", .string "#/definitions/C")]),
    ("C", .object [("$ref", .string "#/definitions/D")]),
    ("D", .object [("type", .string "string")])])]
  root := { definitions := some [
    ("A", { reference := some "#/definitions/B", type := some (.single "object") }),
    ("B", { reference := some "#/definitions/C" }),
    ("C", { reference := some "#/definitions/D" }),
    ("D", { type := some (.single "string") })] }
  distinct := by simp [Json.KeysDistinct, Json.MembersDistinct]
  reads := rfl

/-- The names of that document. -/
def relayedTable : NameTable where
  entries := [(definitionAt "A", ⟨"A", "A"⟩), (definitionAt "B", ⟨"B", "B"⟩),
    (definitionAt "C", ⟨"C", "C"⟩), (definitionAt "D", ⟨"D", "D"⟩)]
  counters := [("A", 1), ("B", 1), ("C", 1), ("D", 1)]
  given := ["D", "C", "B", "A"]

/-- Where the references of the document lead. -/
theorem ofRef?_relayed : Pointer.ofRef? "#/definitions/B" = some (definitionAt "B") ∧
    Pointer.ofRef? "#/definitions/C" = some (definitionAt "C") ∧
    Pointer.ofRef? "#/definitions/D" = some (definitionAt "D") :=
  ⟨by cbv, by cbv, by cbv⟩

/-- What is found at the definitions of the document. -/
theorem resolve?_relayed :
    relayed.resolve? (definitionAt "A") = some
      ⟨{ reference := some "#/definitions/B", type := some (.single "object") }, true⟩ ∧
    relayed.resolve? (definitionAt "B") = some ⟨{ reference := some "#/definitions/C" }, true⟩ ∧
    relayed.resolve? (definitionAt "C") = some ⟨{ reference := some "#/definitions/D" }, true⟩ ∧
    relayed.resolve? (definitionAt "D") = some ⟨{ type := some (.single "string") }, true⟩ :=
  ⟨resolve?_definition rfl, resolve?_definition rfl, resolve?_definition rfl,
    resolve?_definition rfl⟩

/-- The bare references lead on to the type. -/
theorem next?_relayed :
    relayed.next? (definitionAt "A") = none ∧
    relayed.next? (definitionAt "B") = some (definitionAt "C") ∧
    relayed.next? (definitionAt "C") = some (definitionAt "D") ∧
    relayed.next? (definitionAt "D") = none := by
  obtain ⟨hA, hB, hC, hD⟩ := resolve?_relayed
  obtain ⟨-, hrefC, hrefD⟩ := ofRef?_relayed
  simp only [next?, hA, hB, hC, hD]
  exact ⟨rfl, hrefC, hrefD, rfl⟩

/-- All definitions keep their names. -/
theorem builder_relayed : builder relayed {} = ⟨relayed, relayedTable⟩ := by
  have hschema : Survey.ofSchema relayed none =
      ⟨relayedTable, ["#/definitions/B", "#/definitions/C", "#/definitions/D"], []⟩ := by cbv
  have hcontains : ∀ key ∈ ["B", "C", "D"], relayedTable.contains (definitionAt key) = true := by
    decide
  have hpointers : relayedTable.pointers = ["A", "B", "C", "D"].map definitionAt := rfl
  have hbase : ∀ key ∈ ["A", "B", "C", "D"], relayedTable.base? (definitionAt key) = some key := by
    decide
  refine congrArg (Builder.mk relayed) (Survey.names_eq_of_forall hschema ?_ ?_)
  · obtain ⟨hB, hC, hD⟩ := ofRef?_relayed
    simp [hB, hC, hD, hcontains]
  · -- The bare references are called otherwise than what they lead on to.
    obtain ⟨hA, hB, hC, hD⟩ := next?_relayed
    simp [hpointers, Survey.isRedundant, hA, hB, hC, hD, hbase]

/-- The module of that document. All but the last of its declarations are aliases of names. -/
def relayedModule : Module where
  declarations := [⟨"A", "type A = B;"⟩, ⟨"B", "type B = C;"⟩, ⟨"C", "type C = D;"⟩,
    ⟨"D", "type D = string;"⟩]
  exports := ["A", "B", "C", "D"]
  banner := false

/-- That is the module of the document. The run from the first reference on passes the bare ones. -/
theorem generate_relayed : generate relayed {} = .ok relayedModule := by
  have hnames : relayedTable.names = [(definitionAt "A", "A"), (definitionAt "B", "B"),
    (definitionAt "C", "C"), (definitionAt "D", "D")] := rfl
  obtain ⟨hB, hC, hD⟩ := ofRef?_relayed
  obtain ⟨hfoundA, hfoundB, hfoundC, hfoundD⟩ := resolve?_relayed
  obtain ⟨-, hnextB, hnextC, hnextD⟩ := next?_relayed
  obtain ⟨n, hlimit⟩ : ∃ n, stepLimit relayed = n + 1 + 1 := ⟨_, rfl⟩
  obtain ⟨k, hfollow⟩ : ∃ k, followLimit relayed = k + 1 + 1 + 1 := ⟨_, rfl⟩
  have htypeA : declared ⟨relayed, relayedTable⟩
      { reference := some "#/definitions/B", type := some (.single "object") }
      (definitionAt "A") = .ok (.named "B") := by
    rw [declared, hlimit]
    refine build_of_follow _ (unnamed_of_byName rfl) rfl hB ?_ rfl
    rw [hfollow, follow_of_next?_eq_some (by decide) hnextB,
      follow_of_next?_eq_some (by decide) hnextC, follow_of_next?_eq_none (by decide) hnextD]
  have htypeB : declared ⟨relayed, relayedTable⟩ { reference := some "#/definitions/C" }
      (definitionAt "B") = .ok (.named "C") := by
    rw [declared, hlimit]
    refine build_of_follow _ (unnamed_of_byName rfl) rfl hC ?_ rfl
    rw [hfollow, follow_of_next?_eq_some (by decide) hnextC,
      follow_of_next?_eq_none (by decide) hnextD]
  have htypeC : declared ⟨relayed, relayedTable⟩ { reference := some "#/definitions/D" }
      (definitionAt "C") = .ok (.named "D") := by
    rw [declared, hlimit]
    refine build_of_follow _ (unnamed_of_byName rfl) rfl hD ?_ rfl
    rw [hfollow, follow_of_next?_eq_none (by decide) hnextD]
  have htypeD : declared ⟨relayed, relayedTable⟩ { type := some (.single "string") }
      (definitionAt "D") = .ok (.basic .string) := by
    rw [declared, hlimit, build_body (n + 1) (unnamed_of_byName rfl) rfl]
    rfl
  rw [generate_eq, builder_relayed, hnames]
  simp only [declare, hfoundA, hfoundB, hfoundC, hfoundD, htypeA, htypeB, htypeC, htypeD]
  rfl

/-- The reference that is not bare and the bare ones behind it restate each other in a chain that
leads on to the type, and not back to the first. -/
theorem not_isChain_restates_relayed :
    generate relayed {} = .ok relayedModule ∧
      relayed.Refers (definitionAt "A") (definitionAt "B") ∧
      relayed.Refers (definitionAt "B") (definitionAt "C") ∧
      relayed.Refers (definitionAt "C") (definitionAt "D") ∧
      relayed.next? (definitionAt "A") = none ∧
      relayed.next? (definitionAt "B") = some (definitionAt "C") ∧
      relayed.next? (definitionAt "C") = some (definitionAt "D") ∧
      [definitionAt "A", definitionAt "B", definitionAt "C", definitionAt "D"].IsChain
        (Restates relayed {} relayedModule) ∧
      ¬[definitionAt "A", definitionAt "B", definitionAt "C", definitionAt "A"].IsChain
        (Restates relayed {} relayedModule) := by
  obtain ⟨hfoundA, hfoundB, hfoundC, hfoundD⟩ := resolve?_relayed
  obtain ⟨hrefB, hrefC, hrefD⟩ := ofRef?_relayed
  obtain ⟨hnextA, hnextB, hnextC, -⟩ := next?_relayed
  have hA : relayed.Refers (definitionAt "A") (definitionAt "B") :=
    ⟨_, hfoundA, hrefB, _, hfoundB⟩
  have hB : relayed.Refers (definitionAt "B") (definitionAt "C") :=
    ⟨_, hfoundB, hrefC, _, hfoundC⟩
  have hC : relayed.Refers (definitionAt "C") (definitionAt "D") :=
    ⟨_, hfoundC, hrefD, _, hfoundD⟩
  have hname : ∀ key ∈ ["A", "B", "C", "D"],
      (builder relayed {}).table.lookup? (definitionAt key) = some key := by
    rw [builder_relayed]
    decide
  have hchain : [definitionAt "A", definitionAt "B", definitionAt "C", definitionAt "D"].IsChain
      (Restates relayed {} relayedModule) := by
    refine .cons_cons ⟨"A", _, "B", hname "A" (by decide), hfoundA, hname "B" (by decide),
      .head _⟩ ?_
    refine .cons_cons ⟨"B", _, "C", hname "B" (by decide), hfoundB, hname "C" (by decide),
      .tail _ (.head _)⟩ ?_
    exact List.isChain_pair.2 ⟨"C", _, "D", hname "C" (by decide), hfoundC,
      hname "D" (by decide), .tail _ (.tail _ (.head _))⟩
  have hnot : ¬(definitionAt "A" :: [definitionAt "B", definitionAt "C"] ++
      [definitionAt "A"]).IsChain (Restates relayed {} relayedModule) := by
    refine not_isChain_restates generate_relayed ?_ ?_
    · simp only [List.forall_mem_cons]
      exact ⟨⟨_, hA⟩, ⟨_, hB⟩, ⟨_, hC⟩, nofun⟩
    · -- Only the first of them is not bare.
      have hbare : ∀ x ∈ [definitionAt "A", definitionAt "B", definitionAt "C"],
          relayed.next? x = none → x = definitionAt "A" := by
        simp [hnextB, hnextC]
      intro x hx y hy hnone hnone'
      exact (hbare x hx hnone).trans (hbare y hy hnone').symm
  exact ⟨generate_relayed, hA, hB, hC, hnextA, hnextB, hnextC, hchain, hnot⟩
/-- A document of two references that are not bare, a combinator with a single member, a reference
out of the document, and one to nothing. The name of each leads back to it. -/
def restating : Document where
  json := .object [("definitions", .object [
    ("A", .object [("$ref", .string "#/definitions/B"), ("type", .string "object")]),
    ("B", .object [("$ref", .string "#/definitions/A"), ("type", .string "object")]),
    ("C", .object [("oneOf", .array [.object [("$ref", .string "#/definitions/C")]])]),
    ("D", .object [("$ref", .string "other.json#/D")]),
    ("E", .object [("$ref", .string "#/definitions/x/E")])])]
  root := { definitions := some [
    ("A", { reference := some "#/definitions/B", type := some (.single "object") }),
    ("B", { reference := some "#/definitions/A", type := some (.single "object") }),
    ("C", { oneOf := some [{ reference := some "#/definitions/C" }] }),
    ("D", { reference := some "other.json#/D" }),
    ("E", { reference := some "#/definitions/x/E" })] }
  distinct := by simp [Json.KeysDistinct, Json.MembersDistinct, Json.ElementsDistinct]
  reads := rfl

/-- The place to which the last of them refers. -/
def restatingNowhere : Pointer :=
  ⟨"#/definitions/x/E", by decide⟩

/-- The names of that document. -/
def restatingTable : NameTable where
  entries := [(definitionAt "A", ⟨"A", "A"⟩), (definitionAt "B", ⟨"B", "B"⟩),
    (definitionAt "C", ⟨"C", "C"⟩), (definitionAt "D", ⟨"D", "D"⟩),
    (definitionAt "E", ⟨"E", "E"⟩)]
  counters := [("A", 1), ("B", 1), ("C", 1), ("D", 1), ("E", 1)]
  given := ["E", "D", "C", "B", "A"]

/-- Where the references of the document lead. -/
theorem ofRef?_restating : Pointer.ofRef? "#/definitions/A" = some (definitionAt "A") ∧
    Pointer.ofRef? "#/definitions/B" = some (definitionAt "B") ∧
    Pointer.ofRef? "#/definitions/C" = some (definitionAt "C") ∧
    Pointer.ofRef? "other.json#/D" = none ∧
    Pointer.ofRef? "#/definitions/x/E" = some restatingNowhere :=
  ⟨by cbv, by cbv, by cbv, rfl, rfl⟩

/-- What is found at the definitions of the document. -/
theorem resolve?_restating :
    restating.resolve? (definitionAt "A") = some
      ⟨{ reference := some "#/definitions/B", type := some (.single "object") }, true⟩ ∧
    restating.resolve? (definitionAt "B") = some
      ⟨{ reference := some "#/definitions/A", type := some (.single "object") }, true⟩ ∧
    restating.resolve? (definitionAt "C") = some
      ⟨{ oneOf := some [{ reference := some "#/definitions/C" }] }, true⟩ ∧
    restating.resolve? (definitionAt "D") = some ⟨{ reference := some "other.json#/D" }, true⟩ ∧
    restating.resolve? (definitionAt "E") = some
      ⟨{ reference := some "#/definitions/x/E" }, true⟩ :=
  ⟨resolve?_definition rfl, resolve?_definition rfl, resolve?_definition rfl,
    resolve?_definition rfl, resolve?_definition rfl⟩

/-- Nothing is found where the last of them refers to. -/
theorem resolve?_restatingNowhere : restating.resolve? restatingNowhere = none := by
  have hsteps : restatingNowhere.segments = ["definitions", "x", "E"] := by decide
  have hwalk : restating.walk? restatingNowhere = none := by
    rw [walk?, hsteps, Schema.walk?]
    rfl
  rw [resolve?, hwalk, readAt?, hsteps]
  rfl

/-- The last of them leads on to there, where it ends, and the others do not lead on. -/
theorem next?_restating :
    restating.next? (definitionAt "A") = none ∧ restating.next? (definitionAt "B") = none ∧
    restating.next? (definitionAt "C") = none ∧ restating.next? (definitionAt "D") = none ∧
    restating.next? (definitionAt "E") = some restatingNowhere ∧
    restating.next? restatingNowhere = none := by
  obtain ⟨hA, hB, hC, hD, hE⟩ := resolve?_restating
  simp only [next?, hA, hB, hC, hD, hE, resolve?_restatingNowhere]
  exact ⟨rfl, rfl, rfl, rfl, rfl, trivial⟩

/-- All definitions keep their names. -/
theorem names_restating : Survey.names restating none = restatingTable := by
  have hschema : Survey.ofSchema restating none = ⟨restatingTable, ["#/definitions/A",
      "#/definitions/B", "#/definitions/C", "#/definitions/x/E", "other.json#/D"], []⟩ := by cbv
  have hcontains : ∀ key ∈ ["A", "B", "C"],
      restatingTable.contains (definitionAt key) = true := by decide
  have hnowhere : restatingTable.contains restatingNowhere = false := by decide
  have hpointers : restatingTable.pointers = ["A", "B", "C", "D", "E"].map definitionAt := rfl
  refine Survey.names_eq_of_forall hschema ?_ ?_
  · obtain ⟨hA, hB, hC, hD, hE⟩ := ofRef?_restating
    simp [hA, hB, hC, hD, hE, hcontains, resolve?_restatingNowhere]
  · obtain ⟨hA, hB, hC, hD, hE, -⟩ := next?_restating
    simp [hpointers, Survey.isRedundant, hA, hB, hC, hD, hE, hnowhere]

/-- What the module of the document is built from. -/
theorem builder_restating : builder restating {} = ⟨restating, restatingTable⟩ :=
  congrArg (Builder.mk restating) names_restating

/-- The module of the document. Every declaration is an alias of a name. -/
def restatingModule : Module where
  declarations := [⟨"A", "type A = B;"⟩, ⟨"B", "type B = A;"⟩, ⟨"C", "type C = C;"⟩,
    ⟨"D", "type D = D;"⟩, ⟨"E", "type E = E;"⟩]
  exports := ["A", "B", "C", "D", "E"]
  banner := false

/-- That is the module of the document. -/
theorem generate_restating : generate restating {} = .ok restatingModule := by
  have hnames : restatingTable.names = [(definitionAt "A", "A"), (definitionAt "B", "B"),
    (definitionAt "C", "C"), (definitionAt "D", "D"), (definitionAt "E", "E")] := rfl
  obtain ⟨hA, hB, hC, hD, hE⟩ := ofRef?_restating
  obtain ⟨hfoundA, hfoundB, hfoundC, hfoundD, hfoundE⟩ := resolve?_restating
  obtain ⟨hnextA, hnextB, hnextC, -, -, hnowhere⟩ := next?_restating
  obtain ⟨n, hlimit⟩ : ∃ n, stepLimit restating = n + 1 + 1 := ⟨_, rfl⟩
  have htypeA : declared ⟨restating, restatingTable⟩
      { reference := some "#/definitions/B", type := some (.single "object") }
      (definitionAt "A") = .ok (.named "B") := by
    rw [declared, hlimit]
    exact build_of_follow _ (unnamed_of_byName rfl) rfl hB
      (follow_of_next?_eq_none (by decide) hnextB) rfl
  have htypeB : declared ⟨restating, restatingTable⟩
      { reference := some "#/definitions/A", type := some (.single "object") }
      (definitionAt "B") = .ok (.named "A") := by
    rw [declared, hlimit]
    exact build_of_follow _ (unnamed_of_byName rfl) rfl hA
      (follow_of_next?_eq_none (by decide) hnextA) rfl
  have htypeC : declared ⟨restating, restatingTable⟩
      { oneOf := some [{ reference := some "#/definitions/C" }] } (definitionAt "C") =
        .ok (.union [.named "C"]) := by
    have hmember : build ⟨restating, restatingTable⟩ (n + 1) { reference := some "#/definitions/C" }
        (.part ((definitionAt "C").slot (.oneOf 0))) = .ok (.named "C") :=
      build_of_follow n (fun _ => rfl) rfl hC (follow_of_next?_eq_none (by decide) hnextC) rfl
    have hplace : (BuildSite.declaration (definitionAt "C")).place = definitionAt "C" := rfl
    rw [declared, hlimit, build_body (n + 1) (unnamed_of_byName rfl) rfl]
    simp only [hplace, body, combinators, alternatives, members, hmember]
    rfl
  have htypeD : declared ⟨restating, restatingTable⟩ { reference := some "other.json#/D" }
      (definitionAt "D") = .ok (.named "D") := by
    have hname : Identifier.ofExternal "other.json#/D" = "D" := rfl
    rw [declared, hlimit, build_reference (n + 1) (unnamed_of_byName rfl) rfl, reference, hD]
    simp only [hname]
  have htypeE : declared ⟨restating, restatingTable⟩ { reference := some "#/definitions/x/E" }
      (definitionAt "E") = .ok (.named "E") := by
    have hname : Identifier.ofPointer restatingNowhere = "E" := rfl
    have hfollow : follow restating (followLimit restating) [definitionAt "E"] restatingNowhere =
        .ok () :=
      follow_of_next?_eq_none (by decide) hnowhere
    rw [declared, hlimit, build_reference (n + 1) (unnamed_of_byName rfl) rfl, reference, hE]
    have hpassed : (BuildSite.declaration (definitionAt "E")).chain ++
        [(BuildSite.declaration (definitionAt "E")).place] = [definitionAt "E"] := rfl
    have hlookup : restatingTable.lookup? restatingNowhere = none := by decide
    simp only [hpassed, hfollow, hlookup, resolve?_restatingNowhere, hname]
    rfl
  rw [generate_eq, builder_restating, hnames]
  simp only [declare, hfoundA, hfoundB, hfoundC, hfoundD, hfoundE, htypeA, htypeB, htypeC, htypeD,
    htypeE]
  rfl

/-- Two references that are not bare restate each other, and so do a combinator with a single
member, a reference out of the document, and one to nothing in it, themselves. -/
theorem isChain_restates_restating :
    generate restating {} = .ok restatingModule ∧
      [definitionAt "A", definitionAt "B", definitionAt "A"].IsChain
        (Restates restating {} restatingModule) ∧
      [definitionAt "C", definitionAt "C"].IsChain (Restates restating {} restatingModule) ∧
      [definitionAt "D", definitionAt "D"].IsChain (Restates restating {} restatingModule) ∧
      [definitionAt "E", definitionAt "E"].IsChain (Restates restating {} restatingModule) := by
  obtain ⟨hfoundA, hfoundB, hfoundC, hfoundD, hfoundE⟩ := resolve?_restating
  have hname : ∀ key ∈ ["A", "B", "C", "D", "E"],
      (builder restating {}).table.lookup? (definitionAt key) = some key := by
    rw [builder_restating]
    decide
  have hA : Restates restating {} restatingModule (definitionAt "A") (definitionAt "B") :=
    ⟨"A", _, "B", hname "A" (by decide), hfoundA, hname "B" (by decide), .head _⟩
  have hB : Restates restating {} restatingModule (definitionAt "B") (definitionAt "A") :=
    ⟨"B", _, "A", hname "B" (by decide), hfoundB, hname "A" (by decide), .tail _ (.head _)⟩
  have hC : Restates restating {} restatingModule (definitionAt "C") (definitionAt "C") :=
    ⟨"C", _, "C", hname "C" (by decide), hfoundC, hname "C" (by decide),
      .tail _ (.tail _ (.head _))⟩
  have hD : Restates restating {} restatingModule (definitionAt "D") (definitionAt "D") :=
    ⟨"D", _, "D", hname "D" (by decide), hfoundD, hname "D" (by decide),
      .tail _ (.tail _ (.tail _ (.head _)))⟩
  have hE : Restates restating {} restatingModule (definitionAt "E") (definitionAt "E") :=
    ⟨"E", _, "E", hname "E" (by decide), hfoundE, hname "E" (by decide),
      .tail _ (.tail _ (.tail _ (.tail _ (.head _))))⟩
  exact ⟨generate_restating, List.isChain_cons_cons.2 ⟨hA, List.isChain_pair.2 hB⟩,
    List.isChain_pair.2 hC, List.isChain_pair.2 hD, List.isChain_pair.2 hE⟩

end Module
end SchemaTypes
