import SqlEdit.Proofs.Sample.Convert
import SqlEdit.Proofs.Sample.Image

namespace SqlEdit

namespace Sample

theorem AreColumns.isFilled {row : List Cell} (h : AreColumns (row.map Prod.fst)) :
    row ≠ [] ∧ (row.map Prod.fst).Nodup :=
  ⟨fun hn => h.ne_nil (hn ▸ rfl), h.distinct⟩

namespace Query

theorem IsSmall.wellFormed {q : Query} (h : q.IsSmall) : q.WellFormed := by
  have hfilter {filter : Option Cell} (hf : ∀ c ∈ filter, IsShortCell c) : ∀ c ∈ filter, IsIdent c.1 :=
    fun c hc => (hf c hc).1.isIdent
  cases q with
  | select t columns filter limit =>
      obtain ⟨ht, hc, hf⟩ := h
      exact ⟨ht.isIdent, fun i hi => (hc.short i hi).isIdent, hfilter hf, hc.ne_nil⟩
  | insert t row =>
      obtain ⟨ht, hr, -⟩ := h
      exact ⟨ht.isIdent, fun i hi => (hr.short i hi).isIdent, nofun, hr.isFilled⟩
  | update t row filter =>
      obtain ⟨ht, ⟨hr, -⟩, hf⟩ := h
      exact ⟨ht.isIdent, fun i hi => (hr.short i hi).isIdent, hfilter hf, hr.isFilled⟩
  | delete t filter =>
      obtain ⟨ht, hf⟩ := h
      exact ⟨ht.isIdent, nofun, hfilter hf, trivial⟩

theorem wellFormed_ofBytes (bytes : List UInt8) : (ofBytes bytes).WellFormed :=
  (Draw.exactly_query.ensures bytes).wellFormed

/-- Camel case and back restores the statement of a query that is drawn from bytes exactly if the
name in its condition is no reserved word in camel case. -/
theorem restored_ofBytes_iff (bytes : List UInt8) :
    ∃ s, Statement.parse (ofBytes bytes).render = .ok s ∧
      (Edit.applyAll [.convert .camel, .convert .snake] s = s ↔
        ∀ c ∈ (ofBytes bytes).filter?,
          Identifier.isReserved (Style.toCamel (columnName c.1)) = false) := by
  have h := wellFormed_ofBytes bytes
  exact ⟨_, parse_eq_statement _ h, applyAll_camel_snake_iff _ h⟩

/-- In camel case this column is the word CASE, which is never converted. -/
theorem restored_ofBytes_ne_of_case :
    (ofBytes [0, 0, 0, 3, 1, 0, 0, 2, 18, 4, 1]).render = "DELETE FROM t_a WHERE c_ase = 0".toList ∧
      ∃ s, Statement.parse (ofBytes [0, 0, 0, 3, 1, 0, 0, 2, 18, 4, 1]).render = .ok s ∧
        Edit.applyAll [.convert .camel, .convert .snake] s ≠ s :=
  ⟨by decide +kernel, .delete ⟨.named "t_a".toList none, some "c_ase = 0".toList⟩,
    by decide +kernel, by decide +kernel⟩

end Query

end Sample

end SqlEdit
