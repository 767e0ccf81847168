import NormalOrder.Proofs.AlphaEquivalence
import NormalOrder.Proofs.BoundedRuns

namespace NormalOrder

/-- The reason for which the binder of `t` cannot be renamed to a name that occurs below it. -/
def Clash.ofName (new : String) (t : Term) : Clash :=
  if new ∈ t.free [] then .occursFree new t else .alreadyBound new t

theorem Clash.ofName_eq_occursFree_iff (new : String) (t : Term) :
    Clash.ofName new t = .occursFree new t ↔ new ∈ t.free [] := by
  unfold Clash.ofName
  split_ifs with hfree <;> simp [hfree]

theorem Clash.ofName_eq_alreadyBound_iff (new : String) (t : Term) :
    Clash.ofName new t = .alreadyBound new t ↔ new ∉ t.free [] := by
  unfold Clash.ofName
  split_ifs with hfree <;> simp [hfree]

theorem Clash.text_ofName (new : String) (t : Term) :
    (Clash.ofName new t).message.text =
      "'" ++ new ++ (if new ∈ t.free [] then "' occurs free in '" else "' is already bound in '") ++
        t.text ++ "'" := by
  unfold Clash.ofName
  split_ifs <;> simp [Clash.message, String.append_assoc]

namespace Term

theorem rename_of_notMem {old : String} {t : Term} (h : old ∉ t.names) (new : String) :
    t.rename old new = t := by
  induction t with
  | var x =>
    have hx : x ≠ old := fun heq => h (by simp [names, heq])
    simp [rename, hx]
  | lam x b ih =>
    have hb : old ∉ b.names := fun hmem => h (List.mem_cons_of_mem _ hmem)
    simp [rename, ih hb]
  | app f a rest hf ha hrest =>
    simp only [mem_names_app, not_or, not_exists, not_and] at h
    obtain ⟨hnf, hna, hnrest⟩ := h
    have hall : rest.map (rename old new) = rest :=
      (List.map_congr_left fun t ht => hrest t ht (hnrest t ht)).trans (List.map_id rest)
    simp only [rename, renameAll_eq_map, hf hnf, ha hna, hall]

/-- A name that does not occur can be put in for another one and taken out again. -/
theorem rename_rename {old new : String} {t : Term} (h : new ∉ t.names) :
    (t.rename old new).rename new old = t := by
  induction t with
  | var x =>
    have hx : x ≠ new := fun heq => h (by simp [names, heq])
    by_cases hold : x = old <;> simp [rename, hold, hx]
  | lam x b ih =>
    have hx : x ≠ new := fun heq => h (by simp [names, heq])
    have hb : new ∉ b.names := fun hmem => h (List.mem_cons_of_mem _ hmem)
    by_cases hold : x = old
    · -- the inner binder keeps the old name, and nothing below it is renamed
      rw [rename, if_pos hold]
      exact rename_of_notMem h old
    · simp only [rename, hold, hx, if_false, ih hb]
  | app f a rest hf ha hrest =>
    simp only [mem_names_app, not_or, not_exists, not_and] at h
    obtain ⟨hnf, hna, hnrest⟩ := h
    have hall : (rest.map (rename old new)).map (rename new old) = rest := by
      rw [List.map_map]
      exact (List.map_congr_left fun t ht => hrest t ht (hnrest t ht)).trans (List.map_id rest)
    simp only [rename, renameAll_eq_map, hf hnf, ha hna, hall]

theorem alphaConvert_ok {x new : String} {b : Term} (h : new ∉ b.names) :
    (Term.lam x b).alphaConvert new = .ok (.lam new (b.rename x new)) := by
  rw [alphaConvert, checkRename_ok h]
  rfl

theorem alphaConvert_error {x new : String} {b : Term} (h : new ∈ b.names) :
    (Term.lam x b).alphaConvert new = .error (.ofName new (.lam x b)) := by
  have hfree : (Term.lam x b).free [] = b.free [x] := rfl
  rw [alphaConvert, checkRename, Clash.ofName, hfree, if_pos h]
  split_ifs <;> rfl

theorem notMem_names_of_alphaConvert {x new : String} {b u : Term}
    (h : (Term.lam x b).alphaConvert new = .ok u) : new ∉ b.names := by
  intro hmem
  rw [alphaConvert_error hmem] at h
  cases h

/-- The binder of an abstraction can be renamed, and nothing else can be. -/
theorem exists_alphaConvert_iff (t : Term) (new : String) :
    (∃ u, t.alphaConvert new = .ok u) ↔ ∃ x b, t = .lam x b ∧ new ∉ b.names := by
  constructor
  · intro h
    obtain ⟨u, hu⟩ := h
    match t, hu with
    | .lam x b, hu => exact ⟨x, b, rfl, notMem_names_of_alphaConvert hu⟩
  · intro h
    obtain ⟨x, b, rfl, hnew⟩ := h
    exact ⟨_, alphaConvert_ok hnew⟩

theorem nameless_alphaConvert {x new : String} {b : Term} (h : new ∉ b.names) :
    (Term.lam new (b.rename x new)).nameless [] = (Term.lam x b).nameless [] := by
  have hbody := nameless_rename [] [] x h (by simp) (by simp)
  exact congrArg Nameless.lam hbody

/-- The binder of a term is renamed if and only if the term is an abstraction and the new name does not
occur in its body. The result is equal to the term up to bound names, with the same free occurrences of
variables, and the old name can be given back to its binder if it is nowhere in the result's body. An
abstraction whose binder cannot be renamed has the new name among its free variables, or else below it
bound, and the message says which. -/
theorem alphaConvert_safe (t : Term) (new : String) :
    ((∃ u, t.alphaConvert new = .ok u) ↔ ∃ x b, t = .lam x b ∧ new ∉ b.names) ∧
    (∀ x b u, t = .lam x b → t.alphaConvert new = .ok u →
      ∃ c, u = .lam new c ∧ u.alphaEq t = true ∧ u.free [] = t.free [] ∧
        (x ∉ c.names → u.alphaConvert x = .ok t)) ∧
    ∀ x b clash, t = .lam x b → t.alphaConvert new = .error clash →
      (clash = .occursFree new t ↔ new ∈ t.free []) ∧
      (clash = .alreadyBound new t ↔ new ∉ t.free []) ∧
      clash.message.text = "'" ++ new ++
        (if new ∈ t.free [] then "' occurs free in '" else "' is already bound in '") ++
        t.text ++ "'" := by
  refine ⟨exists_alphaConvert_iff t new, ?converted, ?refused⟩
  case converted =>
    rintro x b u rfl hu
    have hnew : new ∉ b.names := notMem_names_of_alphaConvert hu
    rw [alphaConvert_ok hnew] at hu
    obtain rfl := Except.ok.inj hu
    have himage := nameless_alphaConvert (x := x) hnew
    refine ⟨_, rfl, (alphaEq_iff_nameless _ _).mpr himage, ?_, ?_⟩
    · rw [← names_nameless, himage, names_nameless]
    · intro hback
      rw [alphaConvert_ok hback, rename_rename hnew]
  case refused =>
    rintro x b clash rfl hclash
    have hnew : new ∈ b.names := by
      by_contra hmem
      rw [alphaConvert_ok hmem] at hclash
      cases hclash
    rw [alphaConvert_error hnew] at hclash
    obtain rfl := Except.error.inj hclash
    exact ⟨Clash.ofName_eq_occursFree_iff new _, Clash.ofName_eq_alreadyBound_iff new _,
      Clash.text_ofName new _⟩

/-- In `λx.x (λy.z)` the binder can become `w`, and `x` again. It cannot become `z`, which is free, nor
`y`, which is bound below it. -/
theorem alphaConvert_safe_names :
    let t : Term := .lam "x" (.app (.var "x") (.lam "y" (.var "z")) [])
    let u : Term := .lam "w" (.app (.var "w") (.lam "y" (.var "z")) [])
    t.alphaConvert "w" = .ok u ∧ u.alphaEq t = true ∧ u.free [] = t.free [] ∧
    u.alphaConvert "x" = .ok t ∧
    t.alphaConvert "z" = .error (.occursFree "z" t) ∧ "z" ∈ t.free [] ∧
    t.alphaConvert "y" = .error (.alreadyBound "y" t) ∧ "y" ∉ t.free [] := by
  intro t u
  have hu : t.alphaConvert "w" = .ok u := by decide
  have hz : t.alphaConvert "z" = .error (.occursFree "z" t) := by decide
  have hy : t.alphaConvert "y" = .error (.alreadyBound "y" t) := by decide
  obtain ⟨-, hconverted, -⟩ := alphaConvert_safe t "w"
  obtain ⟨c, hc, halpha, hfree, hback⟩ := hconverted "x" _ u rfl hu
  obtain rfl := (Term.lam.inj hc).2
  obtain ⟨-, -, hrefusedz⟩ := alphaConvert_safe t "z"
  obtain ⟨-, -, hrefusedy⟩ := alphaConvert_safe t "y"
  exact ⟨hu, halpha, hfree, hback (by decide), hz, (hrefusedz "x" _ _ rfl hz).1.mp rfl, hy,
    (hrefusedy "x" _ _ rfl hy).2.1.mp rfl⟩

end Term

end NormalOrder
