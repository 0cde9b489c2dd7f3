import ContentVault.Store.Directory

/-! # Directories, one name at a time

    A directory is determined by its entries, and an entry by its name
    (`mem_entries_iff`).  A file that is written under a name of its own and
    then renamed leaves no other trace (`rename_set`), and neither does one
    that is erased again (`erase_set`). -/

namespace ContentVault.Directory

theorem ext_entries {d d' : Directory} (h : d.entries = d'.entries) : d = d' := by
  cases d
  cases d'
  cases h
  rfl

/-- What is listed is what stands under its name. -/
theorem mem_entries_iff (d : Directory) {name : String} {node : Node} :
    (name, node) ∈ d.entries ↔ d.get? name = some node := by
  obtain ⟨entries, nodup⟩ := d
  show _ ↔ entries.lookup name = some node
  induction entries with
  | nil => exact iff_of_false List.not_mem_nil (fun h => nomatch h)
  | cons e rest ih =>
      obtain ⟨n, m⟩ := e
      rw [List.map_cons, List.nodup_cons] at nodup
      obtain ⟨hfresh, hrest⟩ := nodup
      rw [List.mem_cons, List.lookup_cons]
      by_cases hn : name = n
      · subst hn
        rw [beq_self_eq_true]
        constructor
        · rintro (heq | hmem)
          · cases heq
            rfl
          · exact absurd (List.mem_map_of_mem hmem) hfresh
        · intro heq
          cases heq
          exact Or.inl rfl
      · rw [beq_false_of_ne hn]
        constructor
        · rintro (heq | hmem)
          · cases heq
            exact absurd rfl hn
          · exact (ih hrest).mp hmem
        · intro heq
          exact Or.inr ((ih hrest).mpr heq)

/-- A name that is not in use can be taken out of use. -/
theorem erase_of_get? {d : Directory} {name : String} (h : d.get? name = none) :
    d.erase name = d := by
  apply ext_entries
  show d.entries.filter _ = d.entries
  rw [List.filter_eq_self]
  rintro ⟨n, node⟩ hmem
  rw [bne_iff_ne]
  rintro rfl
  cases h.symm.trans (d.mem_entries_iff.mp hmem)

/-- A file that is erased again leaves no trace. -/
theorem erase_set (d : Directory) (name : String) (node : Node) :
    (d.set name node).erase name = d.erase name := by
  apply ext_entries
  show ((d.erase name).entries ++ [(name, node)]).filter _ = (d.erase name).entries
  have hnone : [(name, node)].filter (fun e => e.1 != name) = [] := by
    rw [List.filter_eq_nil_iff]
    intro e he
    rw [List.mem_singleton.mp he, bne_self_eq_false]
    exact Bool.false_ne_true
  rw [List.filter_append, hnone, List.append_nil]
  exact congrArg entries (erase_of_get? (d.get?_erase_self name))

/-- A file that is renamed leaves no trace under its old name. -/
theorem rename_set (d : Directory) (old new : String) (node : Node) :
    (d.set old node).rename old new = (d.erase old).set new node := by
  unfold rename
  rw [d.get?_set_self old node, erase_set]

/-- A new name comes after those in use. -/
theorem entries_set {d : Directory} {name : String} (h : d.get? name = none) (node : Node) :
    (d.set name node).entries = d.entries ++ [(name, node)] := by
  show (d.erase name).entries ++ [(name, node)] = _
  rw [erase_of_get? h]

end ContentVault.Directory
