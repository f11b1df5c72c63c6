import VaultSearch.Query.Operator
import VaultSearch.Query.Reader
import VaultSearch.Search.Exact

namespace VaultSearch.Search

open Text Note Query Filtering

def booleanFilter (query : Text) (ds : List Document) : List Document :=
  ds.filter fun d => holdsIn query d.body

def highlightTerms (query : Text) : List Text :=
  match compile query with
  | .ok e => Expr.positiveTerms e
  | .error _ => [query]

def booleanResult (terms : List Text) (d : Document) : Result :=
  let spans := terms.flatMap (findSpans d.content)
  { id := d.id, title := d.displayTitle, score := spans.length, spans, mode := some .boolean }

def booleanResults (query : Text) (ds : List Document) : List Result :=
  (booleanFilter query ds).map (booleanResult (highlightTerms query))

def fuzzyHit (threshold : Number.Binary64) (query : Text) (d : Document) : Bool :=
  Fuzzy.isMatch threshold d.title query || Fuzzy.isMatch threshold d.content query

def fuzzyResults (threshold : Number.Binary64) (query : Text) (ds : List Document) : List Result :=
  (Fuzzy.rank query (ds.filter (fuzzyHit threshold query))).map fun (d, score) =>
    { id := d.id, title := d.displayTitle, score, spans := Fuzzy.spans threshold d.content query
      mode := some .fuzzy }

def plainResult (d : Document) : Result := { id := d.id, title := d.displayTitle }

def matching (o : Options) (text : Text) (ds : List Document) : List Result :=
  let text := trim text
  if text.isEmpty then ds.map plainResult
  else match o.mode with
    | .boolean => booleanResults text ds
    | .fuzzy => fuzzyResults o.threshold text ds
    | .exact => exactResults text ds

def run (ds : List Document) (text : Text) (filters : Filters) (o : Options) :
    Except FilterError (List Result) :=
  match filters.apply ds with
  | .error e => .error (.time e)
  | .ok ds => .ok (paginate o.limit o.offset (matching o text ds))

def resolve (o : Options) : Except FilterError (Text × Filters) :=
  (Filtering.parse o.strict o.query).map fun (text, inline) => (text, inline.merged o.filters)

def search (ds : List Document) (o : Options) : Except FilterError (List Result) :=
  match resolve o with
  | .error e => .error e
  | .ok (text, filters) => run ds text filters o

def smart (o : Options) : Options := { o with boolean := hasOperator o.query, fuzzy := false }

def smartSearch (ds : List Document) (o : Options) : Except FilterError (List Result) :=
  search ds (smart o)

end VaultSearch.Search
