/-! Lists of named values, kept in the order of the names with one value for each. -/

set_option autoImplicit false

namespace Pinout.Named

variable {α : Type}

/-- Give a name a value, in place of the one that it had. -/
def put (name : String) (value : α) : List (String × α) → List (String × α)
  | [] => [(name, value)]
  | entry :: rest =>
    if name < entry.1 then (name, value) :: entry :: rest
    else if name = entry.1 then (name, value) :: rest
    else entry :: put name value rest

def get? (entries : List (String × α)) (name : String) : Option α :=
  (entries.find? fun entry => entry.1 = name).map (·.2)

/-- Looking up after a change sees the change, and nothing else has changed. -/
theorem get?_put {entries : List (String × α)} {name other : String} {value : α} :
    get? (put name value entries) other =
      if name = other then some value else get? entries other := by
  induction entries with
  | nil =>
      by_cases same : name = other <;> simp [put, get?, same]
  | cons entry rest ih =>
      simp only [put]
      split
      · by_cases same : name = other <;> simp [get?, same]
      · split
        · rename_i here
          subst here
          by_cases same : entry.1 = other <;> simp [get?, same]
        · rename_i apart
          simp only [get?, List.find?_cons] at ih ⊢
          by_cases found : entry.1 = other
          · subst found
            simp [apart]
          · simpa [found] using ih

end Pinout.Named
