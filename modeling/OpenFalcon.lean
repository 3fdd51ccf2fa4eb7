import OpenFalcon.Common.TagReference
import OpenFalcon.Judge.Delivery
import OpenFalcon.Judge.ListCalls
import OpenFalcon.Judge.ItemMap
import OpenFalcon.Judge.KDiff
import OpenFalcon.Judge.HistoryExact
import OpenFalcon.Graph.QueryCoarse
import OpenFalcon.Hbs.ParentIds
import OpenFalcon.Hbs.RowOrder
import OpenFalcon.Graph.Insert
import OpenFalcon.Graph.Clean
import OpenFalcon.Graph.IndexFollow
import OpenFalcon.Graph.HistoryCache
import OpenFalcon.Graph.Window
import OpenFalcon.Graph.IoWorkers
import OpenFalcon.Transfer.Telnet
import OpenFalcon.Transfer.Accounting
import OpenFalcon.Transfer.Tsdb
import OpenFalcon.Hbs.StrategyTags
import OpenFalcon.Nodata.SendMock
import OpenFalcon.Nodata.Collector
import OpenFalcon.Nodata.Targets
import OpenFalcon.Alarm.Consume
import OpenFalcon.Alarm.Cases
import OpenFalcon.Relay.Relabel
import OpenFalcon.Api.Delete
import OpenFalcon.Api.Expression
import OpenFalcon.Api.Binding
import OpenFalcon.Api.Account
import OpenFalcon.Api.TmpGraph
import OpenFalcon.Api.Grafana
import OpenFalcon.Aggregator.Written
import OpenFalcon.Aggregator.Misread
import OpenFalcon.Aggregator.Worker
import OpenFalcon.Agent.PluginArgs
import OpenFalcon.Agent.Sync
import OpenFalcon.Agent.DiskStats
