import TypedLet.Environment.Basic

/-
The tables of a scope. What is kept under a name bears it, so an entry is what it keeps, and a
search by the names of the entries is one by the names of the declarations.
-/
namespace TypedLet

@[simp] theorem Binding.name_of (decl : Declaration) (a : α) :
    (Binding.of decl a).name = decl.name := rfl

@[simp] theorem Binding.decl_of (decl : Declaration) (a : α) :
    (Binding.of decl a).decl = decl := rfl

@[simp] theorem Binding.info_of (decl : Declaration) (a : α) : (Binding.of decl a).info = a := rfl

theorem Binding.ext_decl {b b' : Binding α} (decls : b.decl = b'.decl) (infos : b.info = b'.info) :
    b = b' := by
  obtain ⟨_, decl, a, rfl⟩ := b
  obtain ⟨_, decl', a', rfl⟩ := b'
  cases decls
  cases infos
  rfl

@[simp] theorem FnEntry.decl_of (f : FnDecl) : (FnEntry.of f).decl = f := rfl

theorem FnEntry.ext_decl {e e' : FnEntry} (decls : e.decl = e'.decl) : e = e' := by
  obtain ⟨_, f, rfl⟩ := e
  obtain ⟨_, f', rfl⟩ := e'
  cases decls
  rfl

namespace Scope

variable {s t : Scope α}

theorem functions_eq_iff {t : Scope β} : s.functions = t.functions ↔ s.fns = t.fns :=
  (List.map_inj_right fun _ _ => FnEntry.ext_decl).symm

theorem ext_fns (vars : s.vars = t.vars) (fns : s.fns = t.fns) : s = t := by
  have functions := functions_eq_iff.mpr fns
  cases s
  cases t
  cases vars
  cases functions
  rfl

@[simp] theorem vars_withVar (decl : Declaration) (a : α) :
    (s.withVar decl a).vars = s.vars ++ [.of decl a] := rfl

@[simp] theorem fns_withVar (decl : Declaration) (a : α) : (s.withVar decl a).fns = s.fns := rfl

@[simp] theorem fns_withFns (fns : List FnDecl) : (s.withFns fns).fns = s.fns ++ fns := by
  simp [withFns, Scope.fns, Function.comp_def]

theorem forall_fns_withFns {Q : FnDecl → Prop} {fns : List FnDecl} :
    (∀ f ∈ (s.withFns fns).fns, Q f) ↔ (∀ f ∈ s.fns, Q f) ∧ ∀ f ∈ fns, Q f := by
  rw [fns_withFns, List.forall_mem_append]

@[simp] theorem fns_setVar (name : String) (a : α) : (s.setVar name a).fns = s.fns := rfl

@[simp] theorem withFns_nil (s : Scope α) : s.withFns [] = s := by
  simp [withFns]

theorem withFns_withFns (fns fns' : List FnDecl) :
    (s.withFns fns).withFns fns' = s.withFns (fns ++ fns') := by
  simp [withFns]

theorem findFn_eq (s : Scope α) (name : String) : s.findFn name = s.fns.find? (·.name = name) := by
  simp only [findFn, fns, List.find?_map]
  congr 2
  funext entry
  simp [entry.named]

theorem findFn_withFns (fns : List FnDecl) (name : String) :
    (s.withFns fns).findFn name = (s.findFn name).or (fns.find? (·.name = name)) := by
  rw [findFn_eq, fns_withFns, List.find?_append, findFn_eq]

theorem fnNames_eq (s : Scope α) : s.fnNames = s.fns.map (·.name) := by
  simp [fnNames, fns, FnEntry.named]

theorem name_of_findVar {name : String} {b : Binding α} (found : s.findVar name = some b) :
    b.decl.name = name := by
  have key : b.name = name := by simpa using List.find?_some found
  exact b.named.symm.trans key

theorem mem_of_findFn {name : String} {f : FnDecl} (found : s.findFn name = some f) : f ∈ s.fns :=
  List.mem_of_find?_eq_some (findFn_eq s name ▸ found)

theorem name_of_findFn {name : String} {f : FnDecl} (found : s.findFn name = some f) :
    f.name = name := by
  rw [findFn_eq] at found
  simpa using List.find?_some found

theorem nodup_declared {named : β → String} {xs : List β} (x : β) (once : (xs.map named).Nodup)
    (free : xs.find? (named · = named x) = none) : ((xs ++ [x]).map named).Nodup := by
  have absent : named x ∉ xs.map named := by
    intro member
    obtain ⟨y, held, same⟩ := List.mem_map.mp member
    exact absurd same (by simpa using List.find?_eq_none.mp free y held)
  rw [List.map_append, List.nodup_append]
  refine ⟨once, List.nodup_cons.mpr ⟨List.not_mem_nil, List.nodup_nil⟩, ?_⟩
  intro a member b last
  rw [List.mem_singleton.mp last]
  exact fun same => absent (same ▸ member)

end Scope
end TypedLet
