import Concordance.Declaration
import Concordance.Occurrence
namespace Concordance

-- Declarations by file.
abbrev Tables := List (String × List Declaration)

namespace Occurrence

-- Settles the relation of an occurrence. A definition stays one. A use inside a
-- declaration of the same name is a definition, and a use outside of every
-- declaration is of another kind.
def reclassify (o : Occurrence) (inside : Bool) : Occurrence :=
  if o.relation = .definition then o
  else if o.enclosing = some o.tag then { o with relation := .definition }
  else if inside then o
  else { o with relation := .other }

-- Assigns an occurrence to the first declaration of its file around its line.
def assign (ds : List Declaration) (o : Occurrence) : Occurrence :=
  match Declaration.enclosing? ds o.line with
  | some d => { o with enclosing := some d.name, kind := d.kind : Occurrence }.reclassify true
  | none => o.reclassify false

-- An occurrence in a file without a table stays as it is.
def assignIn (tables : Tables) (o : Occurrence) : Occurrence :=
  match tables.lookup o.filename with
  | some ds => o.assign ds
  | none => o

end Occurrence

def assignAll (tables : Tables) (os : List Occurrence) : List Occurrence :=
  os.map (Occurrence.assignIn tables)

end Concordance
