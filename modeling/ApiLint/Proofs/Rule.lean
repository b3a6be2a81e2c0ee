import ApiLint.Rule
import Mathlib.Data.List.Nodup

/-! The names of the declared rules: no scope, category or rule is declared twice in one place, and
no scope is without a name. The rules of the rule engine are all of one kind. -/
namespace ApiLint.Rule

theorem scopes_nodup : (catalogue.map (·.1)).Nodup := by
  simp [catalogue]

theorem scope_ne_nil {scope : Text} {categories : List (Text × List Rule)}
    (h : (scope, categories) ∈ catalogue) : scope ≠ [] := by
  have hall : ∀ s ∈ catalogue, s.1 ≠ [] := by decide
  exact hall _ h

theorem categories_nodup {scope : Text} {categories : List (Text × List Rule)}
    (h : (scope, categories) ∈ catalogue) : (categories.map (·.1)).Nodup := by
  have hall : ∀ s ∈ catalogue, (s.2.map (·.1)).Nodup := by simp [catalogue]
  exact hall _ h

theorem rules_nodup {scope category : Text} {categories : List (Text × List Rule)}
    {rules : List Rule} (h : (scope, categories) ∈ catalogue) (hrules : (category, rules) ∈ categories) :
    (rules.map (·.name)).Nodup := by
  have hall : ∀ s ∈ catalogue, ∀ c ∈ s.2, (c.2.map (·.name)).Nodup := by
    simp only [catalogue, List.forall_mem_cons]
    simp [sharedOperations, sharedPagination, sharedParameters, sharedPaths,
      sharedResponses, sharedSchemas, sharedSecurityDefinitions, sharedSecurity, sharedWalker,
      swagger2Operations, oas3Operations, oas3Responses, oas3Schemas, engineRules, status, case,
      propertyType, oas, ibm]
  exact hall _ h _ hrules

/-- The rules of the rule engine have statuses and nothing else. -/
theorem kind_of_engineRule {category : Text} {categories : List (Text × List Rule)}
    {rules : List Rule} (h : (Text.ofString "spectral", categories) ∈ catalogue)
    (hrules : (category, rules) ∈ categories) {rule : Rule} (hrule : rule ∈ rules) :
    rule.kind = .status := by
  have hcategories : categories = [(Text.ofString "rules", engineRules)] := by
    simpa [catalogue] using h
  rw [hcategories, List.mem_singleton, Prod.mk.injEq] at hrules
  have hall : ∀ rule ∈ engineRules, rule.kind = .status := by decide
  exact hall rule (hrules.2 ▸ hrule)

end ApiLint.Rule
