import LibeventHttpd.MathCgi.Blocks
import LibeventHttpd.MathCgi.Page
import LibeventHttpd.PostBody
import LibeventHttpd.Collect
import LibeventHttpd.LineBuffer
import LibeventHttpd.HeaderLength
import LibeventHttpd.ArrayBounds
import LibeventHttpd.CgiMain
import LibeventHttpd.Environment
import LibeventHttpd.DocumentRoot
import LibeventHttpd.StoredPage
import LibeventHttpd.EpollRuns
import LibeventHttpd.Delivery
import LibeventHttpd.Calculator
import LibeventHttpd.MySql.HandleProtocol
import LibeventHttpd.MySql.Clients
