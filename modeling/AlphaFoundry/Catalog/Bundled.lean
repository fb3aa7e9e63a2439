/-
# AlphaFoundry.Catalog.Bundled -- the catalog that comes with the library

Prices, volumes, fundamentals, analyst and sentiment data, and group labels; arithmetic,
transforms, cross-sectional, time-series and group operators.  Domains: `real` for unbounded
series, `bounded` for series in a fixed range (ranks, scores), `categorical` for grouping labels.
-/
import AlphaFoundry.Catalog.Basic

namespace AlphaFoundry.Catalog.Bundled

set_option autoImplicit false

def field (id category domain description : String) : Field :=
  ⟨id, category, domain, some description⟩

/-- A series in either numeric domain. -/
def numeric : List String := ["real", "bounded"]

def fields : List Field := [
  field "open" "price" "real" "Daily open price",
  field "high" "price" "real" "Daily high price",
  field "low" "price" "real" "Daily low price",
  field "close" "price" "real" "Daily close price",
  field "vwap" "price" "real" "Volume-weighted average price",
  field "returns" "price" "real" "Daily close-to-close returns",
  field "volume" "volume" "real" "Daily traded volume",
  field "adv20" "volume" "real" "Average daily volume over 20 days",
  field "sharesout" "volume" "real" "Shares outstanding",
  field "cap" "fundamental" "real" "Market capitalization",
  field "assets" "fundamental" "real" "Total assets",
  field "sales" "fundamental" "real" "Trailing revenue",
  field "ebitda" "fundamental" "real"
    "Earnings before interest, taxes, depreciation and amortization",
  field "debt" "fundamental" "real" "Total debt",
  field "enterprise_value" "fundamental" "real" "Enterprise value",
  field "est_eps" "analyst" "real" "Consensus EPS estimate",
  field "est_revenue" "analyst" "real" "Consensus revenue estimate",
  field "rating_score" "analyst" "bounded" "Average analyst rating",
  field "news_sentiment" "sentiment" "bounded" "News sentiment score",
  field "social_volume" "sentiment" "real" "Social media mention volume",
  field "industry" "group" "categorical" "Industry classification",
  field "subindustry" "group" "categorical" "Sub-industry classification",
  field "sector" "group" "categorical" "Sector classification",
  field "market" "group" "categorical" "Whole-market group"]

/-- A call with its arguments and, for a windowed operator, the window length. -/
def callTemplate (id : String) : Arity → String
  | .unary => id ++ "(" ++ place "0" ++ ")"
  | .binary => id ++ "(" ++ place "0" ++ ", " ++ place "1" ++ ")"
  | .windowed => id ++ "(" ++ place "0" ++ ", " ++ place "window" ++ ")"

def operator (id : String) (category : OperatorCategory) (arity : Arity)
    (inputs : List (List String)) (output : String) (tags : List String) : Operator :=
  { id, category, arity, inputs, output, tags, template := callTemplate id arity }

def arithmetic (id tag : String) : Operator :=
  operator id .arithmetic .binary [numeric, numeric] "real" [tag]

def unary (id : String) (category : OperatorCategory) (output : String) : Operator :=
  operator id category .unary [numeric] output []

def rolling (id output : String) : Operator :=
  { operator id .timeSeries .windowed [numeric] output ["smoothing"] with window := some ⟨5, 252⟩ }

def lagging (id : String) : Operator :=
  { operator id .timeSeries .windowed [numeric] "real" ["lag"] with window := some ⟨1, 20⟩ }

def grouped (id output : String) : Operator :=
  operator id .group .binary [numeric, ["categorical"]] output []

def operators : List Operator := [
  arithmetic "add" "additive",
  arithmetic "subtract" "additive",
  arithmetic "multiply" "multiplicative",
  arithmetic "divide" "multiplicative",
  unary "abs" .arithmetic "real",
  operator "log" .transform .unary [["real"]] "real" [],
  unary "sign" .transform "bounded",
  unary "reverse" .transform "real",
  unary "sigmoid" .transform "bounded",
  unary "rank" .crossSectional "bounded",
  unary "scale" .crossSectional "real",
  { unary "zscore" .crossSectional "real" with role := some .normalize },
  rolling "ts_mean" "real",
  rolling "ts_std_dev" "real",
  rolling "ts_rank" "bounded",
  rolling "ts_min" "real",
  rolling "ts_max" "real",
  rolling "ts_sum" "real",
  lagging "delay",
  lagging "ts_delta",
  grouped "group_rank" "bounded",
  { grouped "group_neutralize" "real" with role := some .neutralize }]

def definition : Definition :=
  { domains := ["real", "bounded", "categorical"], fields, operators }

theorem issues_definition : definition.issues = [] :=
  List.isEmpty_iff.1 (by decide +kernel)

def catalog : Catalog :=
  ⟨definition, issues_definition⟩

end AlphaFoundry.Catalog.Bundled
