import AgUi.ListLemmas
import AgUi.Dict
import AgUi.Core.Events
import AgUi.Middleware.BackwardCompatibility
import AgUi.Middleware.Correlation
import AgUi.Middleware.Schema
import AgUi.Scripts.CheckCodeownersAuth
import AgUi.Ruby.Value
import AgUi.Ruby.Util
import AgUi.Json.Generate
import AgUi.Json.Parse
import AgUi.Ruby.Encoder
import AgUi.Ruby.Events
import AgUi.Ruby.Compat
import AgUi.Ruby.Types
import AgUi.DocTemplate.Markdown
import AgUi.DocTemplate.Sections
import AgUi.DocTemplate.TypesPage
import AgUi.DocTemplate.EventsPage
import AgUi.DocTemplate.SourceTags
import AgUi.DocTemplate.ParamsTable
import AgUi.DocTemplate.MethodDoc
import AgUi.Kotlin.ClawgUiPairing
