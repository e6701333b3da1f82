import LlmProxy.Domain

/-! Package `router`: which nodes serve an alias, and the choice of one of them. -/

namespace LlmProxy

/-- The table that requests are routed by: the nodes that list an alias. -/
structure Router where
  aliasIdx : String → List ModelNode

namespace Router

def endpointMatches (nodeType requested : EndpointType) : Bool :=
  if nodeType = .all || requested = .all then true else decide (nodeType = requested)

def resolve (r : Router) (alias_ : String) (et : EndpointType) : List ModelNode :=
  (r.aliasIdx alias_).filter fun n => n.enabled && endpointMatches n.endpointType et

theorem enabled_of_mem_resolve {r : Router} {alias_ : String} {et : EndpointType} {n : ModelNode}
    (h : n ∈ r.resolve alias_ et) : n.enabled = true := by
  have := (List.mem_filter.mp h).2
  simp only [Bool.and_eq_true] at this
  exact this.1

end Router

end LlmProxy
