import ContentVault.Bytes
import ContentVault.Time.Timestamp

/-!
# Directories

A directory holds files and other directories under names, each name at most once. It is looked at through `get?`, and
every operation says in one equation what it does to that view. Of what a file is, only its bytes and the moment of its
creation matter here; of a directory within a directory, only that it is not a file.
-/

namespace ContentVault

/-- What stands under a name. -/
inductive Node where
  | file (bytes : Bytes) (created : Timestamp)
  | folder
deriving DecidableEq

/-- A directory: what stands under which name. -/
structure Directory where
  entries : List (String × Node)
  nodup : (entries.map Prod.fst).Nodup

namespace Directory

/-- The directory without entries. -/
def empty : Directory := ⟨[], by simp⟩

/-- What stands under a name. -/
def get? (d : Directory) (name : String) : Option Node := d.entries.lookup name

/-- The names in use. -/
def names (d : Directory) : List String := d.entries.map Prod.fst

/-- Takes a name out of use. -/
def erase (d : Directory) (name : String) : Directory where
  entries := d.entries.filter fun e => e.1 != name
  nodup := d.nodup.sublist (List.filter_sublist.map Prod.fst)

theorem not_mem_names_erase (d : Directory) (name : String) : name ∉ (d.erase name).names := by
  simp [names, erase]

/-- Puts a node under a name, in place of what may have been there. -/
def set (d : Directory) (name : String) (node : Node) : Directory where
  entries := (d.erase name).entries ++ [(name, node)]
  nodup := by
    have h := d.not_mem_names_erase name
    simp only [names] at h
    simp only [List.map_append, List.map_cons, List.map_nil, List.nodup_append, (d.erase name).nodup, true_and]
    simp only [List.nodup_cons, List.not_mem_nil, not_false_eq_true, List.nodup_nil, and_self, true_and,
      List.mem_cons, or_false]
    rintro a ha _ rfl rfl
    exact h ha

/-- Puts what stands under one name under another, in place of what may have been there. -/
def rename (d : Directory) (old new : String) : Directory :=
  match d.get? old with
  | some node => (d.erase old).set new node
  | none => d

/-! ## What the operations do to the view -/

theorem lookup_filter_ne (entries : List (String × Node)) {name other : String} (h : other ≠ name) :
    (entries.filter fun e => e.1 != name).lookup other = entries.lookup other := by
  induction entries with
  | nil => rfl
  | cons e rest ih =>
    by_cases hn : e.1 = name
    · have ho : (other == e.1) = false := by simp [hn, h]
      rw [List.filter_cons_of_neg (by simp [hn]), List.lookup_cons, ho]
      exact ih
    · rw [List.filter_cons_of_pos (by simp [hn]), List.lookup_cons, List.lookup_cons, ih]

@[simp] theorem get?_erase_self (d : Directory) (name : String) : (d.erase name).get? name = none := by
  simp only [get?, erase, List.lookup_eq_none_iff, List.mem_filter]
  intro e ⟨_, hne⟩
  simp only [bne_iff_ne, ne_eq] at hne
  simp [Ne.symm hne]

@[simp] theorem get?_erase_of_ne (d : Directory) {name other : String} (h : other ≠ name) :
    (d.erase name).get? other = d.get? other := lookup_filter_ne d.entries h

theorem lookup_append_single (entries : List (String × Node)) (name other : String) (node : Node)
    (h : entries.lookup name = none) :
    (entries ++ [(name, node)]).lookup other = if other = name then some node else entries.lookup other := by
  induction entries with
  | nil => by_cases ho : other = name <;> simp [List.lookup_cons, ho, beq_false_of_ne]
  | cons e rest ih =>
    obtain ⟨n, m⟩ := e
    have hn : (name == n) = false := by
      by_cases hn : name = n
      · simp [hn] at h
      · simp [hn]
    rw [List.lookup_cons, hn] at h
    have := ih h
    by_cases ho : other = n
    · have : other ≠ name := by rintro rfl; simp [ho] at hn
      simp [ho, ho ▸ this]
    · have hb : (other == n) = false := by simp [ho]
      simp [List.lookup_cons, hb, this]

@[simp] theorem get?_set_self (d : Directory) (name : String) (node : Node) :
    (d.set name node).get? name = some node := by
  have := lookup_append_single (d.erase name).entries name name node (d.get?_erase_self name)
  simpa [get?, set] using this

@[simp] theorem get?_set_of_ne (d : Directory) {name other : String} (node : Node) (h : other ≠ name) :
    (d.set name node).get? other = d.get? other := by
  have := lookup_append_single (d.erase name).entries name other node (d.get?_erase_self name)
  simp only [h, if_false] at this
  exact this.trans (d.get?_erase_of_ne h)

end Directory

end ContentVault
