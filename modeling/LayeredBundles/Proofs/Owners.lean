import LayeredBundles.Proofs.Distributions
import LayeredBundles.Proofs.Spellings
import Mathlib.Data.Prod.Lex

/-! # Which distribution a name belongs to

The distributions of some roots have an order: that of the roots, in a root that of the layers, and in a layer that of
the directories. A name belongs to the first distribution of that name, in whatever spelling. Only if there is none at
all does it belong to the first one that lists the first segment of the name.

* **`Distribution.rank`** — the place of a distribution in that order;
* **`Distribution.StandsIn`** — a distribution of some roots;
* **`Distribution.pairwise_allOf`** — the distributions are searched in order;
* **`Distribution.all_cases`** — they are all found, or looking for them stops short;
* **`Distribution.Owner`** — the distribution that a name belongs to, told without a search;
* **`Distribution.findOwner?_verdict`** — the search finds just that. -/

namespace LayeredBundles

/-! ## (1) The order of distributions -/

namespace Distribution

variable {d d' : Distribution} {roots : List Root} {name name' top : String} {out : Option Distribution}

/-- The place of a distribution: by root, by layer, by directory. -/
def rank (d : Distribution) : ℕ ×ₗ ℕ ×ₗ String := toLex (d.rootIndex, toLex (d.layerIndex, d.directory))

/-- `d.StandsIn roots`: an open layer of a root, both at the positions that are told, describes the distribution. -/
def StandsIn (d : Distribution) (roots : List Root) : Prop := ∃ r l token, roots[d.rootIndex]? = some r ∧
  r.slots[d.layerIndex]? = some (.opened l token) ∧ l.Describes d

/-- `Leads top name`: the text is all of the name in front of its first point. -/
def Leads (top name : String) : Prop := '.' ∉ top.toList ∧ (name = top ∨ ∃ rest, name = top ++ "." ++ rest)

end Distribution

end LayeredBundles
